import ResultTree.Proofs.Builder.Steps

namespace ResultTree

/-! Writing never stops. A document is written by single steps, among which a leaf counts
as two and the end closes whatever is still open. Each of them is taken where the ones
before it have led, and all of them are right whatever is refused on the way. -/

namespace Builder

variable {builder next : Builder} {event : Event}

/-! ## One step -/

namespace Step

theorem parentLink_old (step : builder.Step event next) {id : NodeId}
    (old : id < builder.document.size) :
    next.document.parentLink id = builder.document.parentLink id := by
  cases step with
  | start | text | comment =>
      rw [Document.parentLink_appended, if_neg (Nat.ne_of_lt old)]
  | attr qname value => rw [document_attr]
  | line line newest => exact (Document.Touch.line _ line).parentLink_eq id
  | declared | close => exact Document.parentLink_putElement _ _
  | nowhere | refused | unmarked | surplus => rfl

theorem size_le (step : builder.Step event next) :
    builder.document.size ≤ next.document.size := by
  cases step with
  | start | text | comment => simp
  | attr qname value => rw [document_attr]
  | line line newest => exact Nat.le_of_eq (Document.size_modify _ _).symm
  | declared | close => simp
  | nowhere | refused | unmarked | surplus => exact Nat.le_refl _

theorem length_opened_le (step : builder.Step event next) :
    next.opened.length ≤ builder.opened.length + 1 := by
  cases step with
  | attr qname value =>
      cases opened : builder.opened with
      | nil => simp [attr_of_nil opened, opened]
      | cons innermost outer => simp [attr_of_cons opened]
  | close opened held =>
      simp only [opened, List.length_cons]
      omega
  | _ => simp [note]

theorem refusal_kept (step : builder.Step event next) {refusal : Refusal}
    (noted : builder.refusal = some refusal) : next.refusal = some refusal := by
  cases step with
  | attr qname value =>
      cases opened : builder.opened with
      | nil => rw [attr_of_nil opened, noted]
      | cons innermost outer => rw [attr_of_cons opened, noted]
  | _ => simp [noted, note]

end Step

namespace Standing

variable {innermost : OpenElement} {outer : List OpenElement}

theorem inside (standing : builder.Standing) {element : OpenElement}
    (member : element ∈ builder.opened) : element.node < builder.document.size := by
  rcases standing.blank element member with ⟨_, _, held⟩
  exact Document.lt_size_of_content held

theorem innermost_notMem (standing : builder.Standing)
    (opened : builder.opened = innermost :: outer) :
    innermost.node ∉ outer.map OpenElement.node :=
  fun member => (List.nodup_cons.mp (standing.way_of opened).nodup).1
    (List.mem_append_left _ member)

theorem around (standing : builder.Standing)
    (opened : builder.opened = innermost :: outer) :
    builder.document.parentLink innermost.node =
      some { builder with opened := outer }.parent ∧
      builder.document.Way { builder with opened := outer }.parent
        { builder with opened := outer }.trail := by
  have way := standing.way_of opened
  generalize same : outer.map OpenElement.node ++ [Document.root] = above at way
  cases way with
  | top _ => simp at same
  | @up _ parent _ link way =>
      have first : { builder with opened := outer }.parent = parent := by
        rcases way.eq_cons with ⟨rest, rfl⟩
        cases outer <;> simp_all [Builder.parent, current]
      rw [first, trail, same]
      exact ⟨link, way⟩

theorem way_of_sameNodes (standing : builder.Standing) (step : builder.Step event next)
    (same : next.opened.map OpenElement.node = builder.opened.map OpenElement.node) :
    next.document.Way next.parent next.trail := by
  have way := standing.way.of_sameLinks fun passed member =>
    step.parentLink_old
      (standing.way.inside standing.linked standing.hosts.inside passed member)
  have parent : next.parent = builder.parent := by
    simp only [Builder.parent, current, ← List.head?_map, same]
  rw [parent, trail, same]
  exact way

theorem way_kept (standing : builder.Standing) (step : builder.Step event next) :
    next.document.Way next.parent next.trail := by
  have whole := step
  cases step with
  | start qname => exact standing.way.appended standing.linked standing.hosts.inside
  | @close innermost outer name declarations opened held =>
      exact (standing.around opened).2.of_sameLinks fun passed _ =>
        Document.parentLink_putElement innermost.node
          (innermost.settled builder.scope name declarations)
  | attr qname value =>
      refine standing.way_of_sameNodes whole ?_
      cases opened : builder.opened with
      | nil => rw [attr_of_nil opened, opened]
      | cons innermost outer => rw [attr_of_cons opened]; rfl
  | _ => exact standing.way_of_sameNodes whole rfl

theorem blank_kept (standing : builder.Standing) (step : builder.Step event next) :
    ∀ element ∈ next.opened, ∃ name declarations,
      next.document.content element.node = .ok (.element { name, declarations }) := by
  have grown {content : Content} {element : OpenElement}
      (member : element ∈ builder.opened) :
      ∃ name declarations, (builder.document.appended builder.parent content).content
        element.node = .ok (.element { name, declarations }) := by
    rw [Document.content_appended_old (standing.inside member)]
    exact standing.blank element member
  intro element member
  cases step with
  | start qname =>
      rcases List.mem_cons.mp member with rfl | member
      · exact ⟨_, [], Document.content_appended_new⟩
      · exact grown member
  | text | comment => exact grown member
  | attr qname value =>
      rw [document_attr]
      cases opened : builder.opened with
      | nil =>
          rw [attr_of_nil opened] at member
          exact standing.blank element member
      | cons innermost outer =>
          rw [attr_of_cons opened] at member
          rcases List.mem_cons.mp member with rfl | member
          · exact standing.blank innermost (by simp [opened])
          · exact standing.blank element (by simp [opened, member])
  | @declared innermost outer holder nsPrefix uri opened held declarable =>
      by_cases same : element.node = innermost.node
      · rcases standing.blank innermost (by simp [opened]) with
          ⟨name, declarations, blank⟩
        cases held.symm.trans blank
        rw [same]
        exact ⟨name, _, Document.content_putElement _ held⟩
      · rw [Document.content_putElement_other same]
        exact standing.blank element member
  | line line newest =>
      rw [Document.content_line]
      exact standing.blank element member
  | close opened held =>
      have different := fun same => standing.innermost_notMem opened
        (List.mem_map.mpr ⟨element, member, same⟩)
      rw [Document.content_putElement_other different]
      exact standing.blank element (by simp [opened, member])
  | nowhere | refused | unmarked | surplus => exact standing.blank element member

theorem newest_kept (standing : builder.Standing) (step : builder.Step event next) :
    ∀ node ∈ next.last, node < next.document.size := by
  have whole := step
  intro node newest
  cases step with
  | start | text | comment =>
      cases newest
      simp
  | attr qname value =>
      have same : (builder.attr qname value).last = builder.last := by
        cases opened : builder.opened with
        | nil => rw [attr_of_nil opened]
        | cons innermost outer => rw [attr_of_cons opened]
      exact Nat.lt_of_lt_of_le (standing.newest node (same ▸ newest)) whole.size_le
  | _ => exact Nat.lt_of_lt_of_le (standing.newest node newest) whole.size_le

theorem kept (standing : builder.Standing) (taken : builder.apply event = .ok next)
    (step : builder.Step event next) : next.Standing where
  linked := (changes_apply taken).linked standing.linked
  orderly := Document.Changes.holds (changes_apply taken) standing.orderly
    Document.AllOrderly.kept
  way := standing.way_kept step
  blank := standing.blank_kept step
  newest := standing.newest_kept step

end Standing

/-! ## All steps -/

def Event.steps : Event → List Event
  | .leaf qname => [.start qname, .close]
  | event => [event]

/-- The single steps that write a document, those included that close what is still open
at the end. Closing where nothing is open does nothing. -/
def script (events : List Event) : List Event :=
  events.flatMap Event.steps ++ List.replicate (events.flatMap Event.steps).length .close

theorem run_append (builder : Builder) (front back : List Event) :
    builder.run (front ++ back) = builder.run front >>= (·.run back) :=
  List.foldlM_append

theorem run_cons (builder : Builder) (event : Event) (rest : List Event) :
    builder.run (event :: rest) = builder.apply event >>= (·.run rest) :=
  List.foldlM_cons

theorem run_steps (builder : Builder) (events : List Event) :
    builder.run (events.flatMap Event.steps) = builder.run events := by
  induction events generalizing builder with
  | nil => rfl
  | cons event rest induction =>
      have single : builder.run event.steps = builder.apply event := by
        cases event <;> simp only [Event.steps, run, List.foldlM_cons, List.foldlM_nil,
          bind_pure]
        rfl
      rw [List.flatMap_cons, run_append, single, run_cons]
      simp only [induction]

theorem single_of_mem_steps {events : List Event}
    (member : event ∈ events.flatMap Event.steps) (qname : String) :
    event ≠ .leaf qname := by
  rcases List.mem_flatMap.mp member with ⟨whole, _, member⟩
  rintro rfl
  cases whole <;> simp [Event.steps] at member

theorem single_of_mem_script {events : List Event} (member : event ∈ script events)
    (qname : String) : event ≠ .leaf qname := by
  rcases List.mem_append.mp member with member | member
  · exact single_of_mem_steps member qname
  · rw [List.eq_of_mem_replicate member]
    simp

namespace Standing

theorem run (standing : builder.Standing) {events : List Event}
    (single : ∀ event ∈ events, ∀ qname, event ≠ .leaf qname) :
    ∃ final, builder.run events = .ok final ∧ final.Standing ∧
      final.opened.length ≤ builder.opened.length + events.length := by
  induction events generalizing builder with
  | nil => exact ⟨builder, rfl, standing, Nat.le_refl _⟩
  | cons event rest induction =>
      rcases standing.apply (single event (by simp)) with ⟨next, taken, step⟩
      rcases induction (standing.kept taken step)
        fun event member => single event (List.mem_cons_of_mem _ member) with
        ⟨final, ran, finalStanding, bounded⟩
      refine ⟨final, by rw [run_cons, taken, Reading.ok_bind, ran], finalStanding, ?_⟩
      have grown := step.length_opened_le
      rw [List.length_cons]
      omega

theorem closeAll (standing : builder.Standing) {count : Nat}
    (enough : builder.opened.length ≤ count) :
    ∃ final, builder.run (List.replicate count .close) = .ok final ∧
      builder.closeAll = .ok final ∧ final.Standing ∧ final.opened = [] := by
  induction count generalizing builder with
  | zero =>
      have nothing : builder.opened = [] :=
        List.eq_nil_of_length_eq_zero (Nat.le_zero.mp enough)
      refine ⟨builder, rfl, ?_, standing, nothing⟩
      rcases builder with ⟨document, opened, last, refusal⟩
      cases nothing
      rfl
  | succ count induction =>
      cases opened : builder.opened with
      | nil =>
          have closed : builder.apply .close = .ok builder := by
            rw [Builder.apply, close, opened]
            rfl
          rcases induction standing (by simp [opened]) with ⟨final, ran, all, others⟩
          exact ⟨final, by rw [List.replicate_succ, run_cons, closed, Reading.ok_bind,
            ran], all, others⟩
      | cons innermost outer =>
          rcases standing.blank innermost (by simp [opened]) with
            ⟨name, declarations, held⟩
          have closed := standing.settle_of opened held outer
          have applied : builder.apply .close =
              { builder with opened := outer }.settle innermost := by
            rw [Builder.apply, close, opened]
          rw [← applied] at closed
          rw [opened, List.length_cons] at enough
          rcases induction (standing.kept closed (.close opened held))
            (Nat.le_of_succ_le_succ enough) with ⟨final, ran, all, others⟩
          refine ⟨final, by rw [List.replicate_succ, run_cons, closed, Reading.ok_bind,
            ran], ?_, others⟩
          rw [Builder.closeAll, opened, List.foldlM_cons,
            standing.settle_of opened held [], Reading.ok_bind]
          exact all

end Standing

/-- Writing comes to an end with everything closed, and only then tells of a refusal. -/
theorem exists_final (events : List Event) :
    ∃ final, run {} (script events) = .ok final ∧ final.Standing ∧ final.opened = [] ∧
      (Document.build events).run =
        .ok (final.refusal.elim (.ok final.document) .error) := by
  rcases Standing.start.run fun event => @single_of_mem_steps event events with
    ⟨written, ran, standing, bounded⟩
  rcases standing.closeAll ((Nat.zero_add _).symm ▸ bounded) with
    ⟨final, closed, all, finalStanding, nothing⟩
  refine ⟨final, by rw [script, run_append, ran, Reading.ok_bind, closed], finalStanding,
    nothing, ?_⟩
  rw [run_steps] at ran
  have finished : written.finish.run =
      .ok (final.refusal.elim (.ok final.document) .error) := by
    unfold finish
    rw [ExceptT.run_bind, all]
    rcases final with ⟨document, opened, last, _ | refusal⟩ <;> rfl
  rw [Document.build, ExceptT.run_bind, ran]
  exact finished

end Builder

end ResultTree
