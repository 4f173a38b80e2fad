import ResultTree.Proofs.Builder.Runs

namespace ResultTree

/-! Every element that is opened is closed at some time, once, and nothing is written of
it afterwards. What it holds then is what it holds in the document that is handed
over. -/

namespace Builder

/-- `builder` is the state in which `step` is taken while some events are written. -/
def Takes (events : List Event) (step : Event) (builder : Builder) : Prop :=
  ∃ before after, script events = before ++ step :: after ∧ run {} before = .ok builder

/-- An element is closed while some events are written, within elements that stay open,
and `document` is what has been written by then. -/
def Closes (events : List Event) (element : OpenElement) (outer : List OpenElement)
    (document : Document) : Prop :=
  ∃ builder, Takes events .close builder ∧ builder.opened = element :: outer ∧
    builder.document = document

/-- The attributes that some events give an element which is open before them, in order,
where `depth` elements are open inside it. -/
def attributesFor : Nat → List Event → List PendingAttribute
  | _, [] => []
  | depth, .start _ :: rest => attributesFor (depth + 1) rest
  | 0, .close :: _ => []
  | depth + 1, .close :: rest => attributesFor depth rest
  | 0, .attr qname value :: rest =>
      ⟨(splitQName qname).1, (splitQName qname).2, value⟩ :: attributesFor 0 rest
  | depth, _ :: rest => attributesFor depth rest

/-- `later` is what has become of an open element that has been given the attributes
`added`. -/
structure OpenElement.Continues (later earlier : OpenElement)
    (added : List PendingAttribute) : Prop where
  node : later.node = earlier.node
  nsPrefix : later.nsPrefix = earlier.nsPrefix
  attributes : later.attributes = earlier.attributes ++ added

theorem OpenElement.Continues.refl (element : OpenElement) :
    element.Continues element [] :=
  ⟨rfl, rfl, (List.append_nil _).symm⟩

theorem OpenElement.Continues.trans {first second third : OpenElement}
    {added more : List PendingAttribute} (later : third.Continues second more)
    (earlier : second.Continues first added) : third.Continues first (added ++ more) where
  node := later.node.trans earlier.node
  nsPrefix := later.nsPrefix.trans earlier.nsPrefix
  attributes := by rw [later.attributes, earlier.attributes, List.append_assoc]

theorem OpenElement.continues_give (element : OpenElement) (qname value : String) :
    (element.give qname value).Continues element
      [⟨(splitQName qname).1, (splitQName qname).2, value⟩] :=
  ⟨rfl, rfl, rfl⟩

variable {builder next final : Builder} {event : Event} {events rest : List Event}

/-! ## What a step leaves -/

/-- An open element is closed by a step, or it stays open and the step gives it what the
events from the step on give it more than those after the step. The elements around it
stay as they are. -/
theorem Step.closes_or_continues (step : builder.Step event next) {element : OpenElement}
    {inner outer : List OpenElement}
    (opened : builder.opened = inner ++ element :: outer) :
    (event = .close ∧ inner = []) ∨
      ∃ others later added, next.opened = others ++ later :: outer ∧
        later.Continues element added ∧
        ∀ rest, attributesFor inner.length (event :: rest) =
          added ++ attributesFor others.length rest := by
  have stays (same : next.opened = builder.opened)
      (passed : ∀ rest, attributesFor inner.length (event :: rest) =
        attributesFor inner.length rest) :
      ∃ others later added, next.opened = others ++ later :: outer ∧
        later.Continues element added ∧
        ∀ rest, attributesFor inner.length (event :: rest) =
          added ++ attributesFor others.length rest :=
    ⟨inner, element, [], same.trans opened, .refl _, passed⟩
  cases step with
  | start qname =>
      exact .inr ⟨_ :: inner, element, [], congrArg (List.cons _) opened, .refl _,
        fun rest => by simp [attributesFor]⟩
  | attr qname value =>
      right
      cases inner with
      | nil =>
          rw [attr_of_cons opened]
          exact ⟨[], _, _, rfl, element.continues_give qname value, fun rest => by
            simp [attributesFor]⟩
      | cons innermost inner =>
          rw [attr_of_cons opened]
          exact ⟨innermost.give qname value :: inner, element, [], rfl, .refl _,
            fun rest => by simp [attributesFor]⟩
  | close openedHere held =>
      cases inner with
      | nil => exact .inl ⟨rfl, rfl⟩
      | cons innermost inner =>
          cases openedHere.symm.trans opened
          exact .inr ⟨inner, element, [], rfl, .refl _,
            fun rest => by simp [attributesFor]⟩
  | surplus nothing => simp [nothing] at opened
  | _ => exact .inr (stays rfl fun rest => by simp [attributesFor])

def Past (id : NodeId) (builder : Builder) : Prop :=
  id < builder.document.size ∧ id ∉ builder.opened.map OpenElement.node

theorem Step.past (step : builder.Step event next) {id : NodeId}
    (past : Past id builder) :
    Past id next ∧ next.document.content id = builder.document.content id := by
  rcases past with ⟨old, closed⟩
  have whole := step
  refine ⟨⟨Nat.lt_of_lt_of_le old whole.size_le, ?_⟩, ?_⟩
  · cases step with
    | start qname =>
        intro member
        rcases List.mem_cons.mp member with same | member
        · exact Nat.ne_of_lt old same
        · exact closed member
    | attr qname value =>
        cases opened : builder.opened with
        | nil => rwa [attr_of_nil opened]
        | cons innermost outer =>
            rw [attr_of_cons opened]
            simpa [opened, OpenElement.give] using closed
    | close opened held =>
        rw [opened, List.map_cons] at closed
        exact fun member => closed (List.mem_cons_of_mem _ member)
    | _ => exact closed
  · cases step with
    | start | text | comment => exact Document.content_appended_old old
    | attr qname value => rw [document_attr]
    | line line newest => exact Document.content_line line
    | declared opened held declarable =>
        rw [opened, List.map_cons] at closed
        exact Document.content_putElement_other fun same =>
          closed (same ▸ List.mem_cons_self)
    | close opened held =>
        rw [opened, List.map_cons] at closed
        exact Document.content_putElement_other fun same =>
          closed (same ▸ List.mem_cons_self)
    | nowhere | refused | unmarked | surplus => rfl

/-! ## What a run leaves -/

theorem Standing.holds_along_run (standing : builder.Standing)
    (single : ∀ event ∈ events, ∀ qname, event ≠ .leaf qname) {property : Builder → Prop}
    (each : ∀ {builder next event}, builder.Standing → builder.Step event next →
      property builder → property next)
    (holds : property builder) (ran : builder.run events = .ok final) :
    final.Standing ∧ property final := by
  refine Reading.holds_of_foldlM (fun state => state.Standing ∧ property state) ?_
    ⟨standing, holds⟩ ran
  rintro state next event member ⟨standing, holds⟩ taken
  rcases standing.apply (single event member) with ⟨other, otherTaken, step⟩
  cases taken.symm.trans otherTaken
  exact ⟨standing.kept taken step, each standing step holds⟩

theorem Standing.holds_of_run (standing : builder.Standing)
    (single : ∀ event ∈ events, ∀ qname, event ≠ .leaf qname) {property : Builder → Prop}
    (each : ∀ {builder next event}, builder.Step event next → property builder →
      property next)
    (holds : property builder) (ran : builder.run events = .ok final) :
    final.Standing ∧ property final :=
  standing.holds_along_run single (fun _ => each) holds ran

theorem changes_run (ran : builder.run events = .ok final) :
    builder.document.Changes final.document :=
  Reading.holds_of_foldlM (builder.document.Changes ·.document)
    (fun _ _ _ _ changes taken => changes.trans (changes_apply taken)) .refl ran

/-- Every open element is closed in the end, if nothing is open then, with the attributes
that it is given until then. -/
theorem Standing.exists_close (standing : builder.Standing)
    (single : ∀ event ∈ events, ∀ qname, event ≠ .leaf qname)
    (ran : builder.run events = .ok final) (done : final.opened = [])
    {element : OpenElement} {inner outer : List OpenElement}
    (opened : builder.opened = inner ++ element :: outer) :
    ∃ before after closing last, events = before ++ .close :: after ∧
      builder.run before = .ok closing ∧ closing.opened = last :: outer ∧
      last.Continues element (attributesFor inner.length events) := by
  induction events generalizing builder element inner with
  | nil =>
      cases ran
      simp [done] at opened
  | cons event rest induction =>
      rcases standing.apply (single event (by simp)) with ⟨next, taken, step⟩
      rw [run_cons, taken, Reading.ok_bind] at ran
      rcases step.closes_or_continues opened with
        ⟨rfl, rfl⟩ | ⟨others, later, added, stillOpen, continues, passed⟩
      · exact ⟨[], rest, builder, element, rfl, rfl, opened, .refl _⟩
      · rcases induction (standing.kept taken step)
          (fun event member => single event (List.mem_cons_of_mem _ member)) ran
          stillOpen with
          ⟨before, after, closing, last, whole, ranBefore, openedLast, lastContinues⟩
        refine ⟨event :: before, after, closing, last, by rw [whole]; rfl, ?_,
          openedLast, ?_⟩
        · rw [run_cons, taken, Reading.ok_bind, ranBefore]
        · rw [passed]
          exact lastContinues.trans continues

theorem Standing.content_of_past (standing : builder.Standing)
    (single : ∀ event ∈ events, ∀ qname, event ≠ .leaf qname)
    (ran : builder.run events = .ok final) {id : NodeId} (past : Past id builder) :
    final.document.content id = builder.document.content id :=
  (standing.holds_of_run single
    (fun step (holds : Past id _ ∧ _ = builder.document.content id) =>
      ⟨(step.past holds.1).1, (step.past holds.1).2.trans holds.2⟩) ⟨past, rfl⟩ ran).2.2

theorem Step.adds (step : builder.Step event next) {id : NodeId}
    (new : builder.document.size ≤ id) (inside : id < next.document.size) :
    id = builder.document.size ∧ ((∃ qname, event = .start qname) ∨
      ∃ content, next.document.content id = .ok content ∧ content.element? = none) := by
  have atSize (bounded : id < builder.document.size + 1) : id = builder.document.size :=
    Nat.le_antisymm (Nat.le_of_lt_succ bounded) new
  cases step with
  | start qname => exact ⟨atSize (by simpa using inside), .inl ⟨qname, rfl⟩⟩
  | text | comment =>
      have same := atSize (by simpa using inside)
      exact ⟨same, .inr ⟨_, same ▸ Document.content_appended_new, rfl⟩⟩
  | attr qname value => exact absurd (document_attr _ _ ▸ inside) (Nat.not_lt_of_le new)
  | line line newest =>
      exact absurd (Document.size_modify _ _ ▸ inside) (Nat.not_lt_of_le new)
  | declared | close =>
      exact absurd (Document.size_putElement _ _ ▸ inside) (Nat.not_lt_of_le new)
  | nowhere | refused | unmarked | surplus => exact absurd inside (Nat.not_lt_of_le new)

theorem Standing.exists_start (standing : builder.Standing)
    (single : ∀ event ∈ events, ∀ qname, event ≠ .leaf qname)
    (ran : builder.run events = .ok final) {id : NodeId} {element : Element}
    (new : builder.document.size ≤ id)
    (held : final.document.content id = .ok (.element element)) :
    ∃ before after qname opening, events = before ++ .start qname :: after ∧
      builder.run before = .ok opening ∧ opening.document.size = id := by
  induction events generalizing builder with
  | nil =>
      cases ran
      exact absurd (Document.lt_size_of_content held) (Nat.not_lt_of_le new)
  | cons event rest induction =>
      rcases standing.apply (single event (by simp)) with ⟨next, taken, step⟩
      have nextStanding := standing.kept taken step
      have singleRest : ∀ event ∈ rest, ∀ qname, event ≠ .leaf qname :=
        fun event member => single event (List.mem_cons_of_mem _ member)
      rw [run_cons, taken, Reading.ok_bind] at ran
      rcases Nat.lt_or_ge id next.document.size with inside | later
      · rcases step.adds new inside with ⟨same, ⟨qname, rfl⟩ | ⟨content, fresh, plain⟩⟩
        · exact ⟨[], rest, qname, builder, rfl, rfl, same.symm⟩
        · have closed : id ∉ next.opened.map OpenElement.node := by
            intro member
            rcases List.mem_map.mp member with ⟨opened, openedMember, rfl⟩
            rcases nextStanding.blank opened openedMember with ⟨_, _, blank⟩
            cases fresh.symm.trans blank
            cases plain
          rw [nextStanding.content_of_past singleRest ran ⟨inside, closed⟩, fresh] at held
          cases held
          cases plain
      · rcases induction nextStanding singleRest ran later with
          ⟨before, after, qname, opening, rfl, ranBefore, size⟩
        refine ⟨event :: before, after, qname, opening, rfl, ?_, size⟩
        rw [run_cons, taken, Reading.ok_bind, ranBefore]

/-! ## Writing a document -/

theorem single_of_mem_after {before after : List Event}
    (whole : script events = before ++ event :: after) {later : Event}
    (member : later ∈ after) (qname : String) : later ≠ .leaf qname :=
  @single_of_mem_script later events (by simp [whole, member]) qname

theorem goesOn_of_run {before after : List Event}
    (whole : script events = before ++ event :: after)
    (ranBefore : run {} before = .ok builder) :
    ∃ next final, builder.Standing ∧ builder.apply event = .ok next ∧
      builder.Step event next ∧ final.opened = [] ∧ next.run after = .ok final := by
  rcases exists_final events with ⟨final, ran, _, done, _⟩
  have single {other : Event} (member : other ∈ before ++ event :: after)
      (qname : String) :
      other ≠ .leaf qname :=
    single_of_mem_script (whole ▸ member) qname
  have standing : builder.Standing :=
    (Standing.start.holds_of_run
      (fun event member => single (List.mem_append_left _ member)) (fun _ _ => trivial)
      trivial ranBefore).1
  rcases standing.apply (@single event (by simp)) with ⟨next, taken, oneStep⟩
  rw [whole, run_append, ranBefore, Reading.ok_bind, run_cons, taken, Reading.ok_bind]
    at ran
  exact ⟨next, final, standing, taken, oneStep, done, ran⟩

theorem Takes.goesOn (takes : Takes events event builder) :
    ∃ next final, builder.Standing ∧ builder.apply event = .ok next ∧
      builder.Step event next ∧ final.opened = [] ∧
      ∃ before after, script events = before ++ event :: after ∧
        run {} before = .ok builder ∧
        next.run after = .ok final := by
  rcases takes with ⟨before, after, whole, ranBefore⟩
  rcases goesOn_of_run whole ranBefore with
    ⟨next, final, standing, taken, step, done, ran⟩
  exact ⟨next, final, standing, taken, step, done, before, after, whole, ranBefore, ran⟩

/-- An element that is open after a step is closed later on, with the attributes that it
is given until then. -/
theorem exists_closes {before after : List Event}
    (whole : script events = before ++ event :: after)
    (ranBefore : run {} before = .ok builder) (taken : builder.apply event = .ok next)
    {element : OpenElement} {inner outer : List OpenElement}
    (opened : next.opened = inner ++ element :: outer) :
    ∃ last closing, Closes events last outer closing ∧
      last.Continues element (attributesFor inner.length after) := by
  rcases goesOn_of_run whole ranBefore with
    ⟨other, final, standing, otherTaken, step, done, ran⟩
  cases taken.symm.trans otherTaken
  rcases (standing.kept taken step).exists_close (fun _ => single_of_mem_after whole)
    ran done opened with
    ⟨middle, rest, closing, last, split, ranMiddle, openedLast, continues⟩
  refine ⟨last, _, ⟨closing, ⟨before ++ event :: middle, rest, ?_, ?_⟩, openedLast, rfl⟩,
    continues⟩
  · simp [whole, split]
  · rw [run_append, ranBefore, Reading.ok_bind, run_cons, taken, Reading.ok_bind,
      ranMiddle]

theorem Takes.closes (takes : Takes events event builder)
    (taken : builder.apply event = .ok next) {element : OpenElement}
    (member : element ∈ next.opened) :
    ∃ last outer closing added, Closes events last outer closing ∧
      last.Continues element added := by
  rcases takes with ⟨before, after, whole, ranBefore⟩
  rcases List.append_of_mem member with ⟨inner, outer, opened⟩
  rcases exists_closes whole ranBefore taken opened with
    ⟨last, closing, closes, continues⟩
  exact ⟨last, outer, closing, _, closes, continues⟩

/-! ## Closing once -/

variable {element : OpenElement} {outer : List OpenElement}

theorem Step.past_of_close (standing : builder.Standing) (step : builder.Step .close next)
    (opened : builder.opened = element :: outer) : Past element.node next := by
  have inside := standing.inside (show element ∈ builder.opened by simp [opened])
  refine ⟨Nat.lt_of_lt_of_le inside step.size_le, ?_⟩
  cases step with
  | surplus nothing => simp [nothing] at opened
  | close openedThere held =>
      cases opened.symm.trans openedThere
      exact standing.innermost_notMem opened

theorem not_closed_again {before middle after : List Event} {other : Builder}
    {last : OpenElement} {others : List OpenElement}
    (whole : script events = before ++ .close :: (middle ++ .close :: after))
    (ran : run {} before = .ok builder) (opened : builder.opened = element :: outer)
    (ranOther : run {} (before ++ .close :: middle) = .ok other)
    (openedOther : other.opened = last :: others) : element.node ≠ last.node := by
  intro same
  have takes : Takes events .close builder := ⟨before, _, whole, ran⟩
  rcases takes.goesOn with ⟨next, _, standing, taken, step, _⟩
  have single : ∀ event ∈ middle, ∀ qname, event ≠ .leaf qname := fun event member =>
    single_of_mem_after whole (List.mem_append_left _ member)
  rw [run_append, ran, Reading.ok_bind, run_cons, taken, Reading.ok_bind] at ranOther
  have past := ((standing.kept taken step).holds_of_run single
    (fun step past => (Step.past step past).1) (step.past_of_close standing opened)
    ranOther).2
  apply past.2
  rw [same, openedOther]
  exact List.mem_cons_self

theorem Takes.eq_of_closed {other : Builder} {last : OpenElement}
    {others : List OpenElement} (takes : Takes events .close builder)
    (takesOther : Takes events .close other) (opened : builder.opened = element :: outer)
    (openedOther : other.opened = last :: others) (same : element.node = last.node) :
    builder = other := by
  rcases takes with ⟨before, after, whole, ran⟩
  rcases takesOther with ⟨beforeOther, afterOther, wholeOther, ranOther⟩
  rcases List.append_eq_append_iff.mp (whole.symm.trans wholeOther) with
    ⟨between, rfl, rest⟩ | ⟨between, rfl, rest⟩
  · cases between with
    | nil =>
        rw [List.append_nil] at ranOther
        exact Except.ok.inj (ran.symm.trans ranOther)
    | cons event middle =>
        rcases List.cons.inj rest with ⟨rfl, rfl⟩
        exact absurd same (not_closed_again whole ran opened ranOther openedOther)
  · cases between with
    | nil =>
        rw [List.append_nil] at ran
        exact Except.ok.inj (ran.symm.trans ranOther)
    | cons event middle =>
        rcases List.cons.inj rest with ⟨rfl, rfl⟩
        exact absurd same.symm
          (not_closed_again wholeOther ranOther openedOther ran opened)

/-! ## What is handed over -/

structure Passage (events : List Event) (document : Document) (event : Event)
    (builder next final : Builder) : Prop where
  standing : builder.Standing
  taken : builder.apply event = .ok next
  step : builder.Step event next
  rest : ∃ before after, script events = before ++ event :: after ∧
    run {} before = .ok builder ∧
    next.run after = .ok final
  handed : final.document = document
  accepted : final.refusal = none
  done : final.opened = []

variable {document : Document}

theorem exists_final_of_build (built : (Document.build events).run = .ok (.ok document)) :
    ∃ final, run {} (script events) = .ok final ∧ final.document = document ∧
      final.refusal = none ∧ final.opened = [] := by
  rcases exists_final events with ⟨final, ran, _, done, result⟩
  rw [built] at result
  cases refused : final.refusal with
  | none =>
      rw [refused] at result
      cases result
      exact ⟨final, ran, rfl, refused, done⟩
  | some refusal =>
      rw [refused] at result
      cases result

theorem Takes.passage (built : (Document.build events).run = .ok (.ok document))
    (takes : Takes events event builder) :
    ∃ next final, Passage events document event builder next final := by
  rcases takes.goesOn with
    ⟨next, final, standing, taken, step, done, before, after, whole, ranBefore, ran⟩
  rcases exists_final_of_build built with ⟨other, ranWhole, handed, accepted, _⟩
  rw [whole, run_append, ranBefore, Reading.ok_bind, run_cons, taken,
    Reading.ok_bind, ran] at ranWhole
  cases ranWhole
  exact ⟨next, final, standing, taken, step,
    ⟨before, after, whole, ranBefore, ran⟩, handed,
    accepted, done⟩

theorem exists_start_of_build (built : (Document.build events).run = .ok (.ok document))
    {id : NodeId} {element : Element}
    (held : document.content id = .ok (.element element)) :
    ∃ qname opening, Takes events (.start qname) opening ∧
      opening.document.size = id := by
  rcases exists_final_of_build built with ⟨final, ran, rfl, _, _⟩
  have single : ∀ event ∈ script events, ∀ qname, event ≠ .leaf qname :=
    fun _ => single_of_mem_script
  have linked :=
    (Standing.start.holds_of_run single (fun _ _ => trivial) trivial ran).1.linked
  have new : Document.empty.size ≤ id := by
    refine Nat.one_le_iff_ne_zero.mpr fun atRoot => ?_
    rcases linked.top with ⟨node, found, shape, _⟩
    rw [show id = Document.root from atRoot, Document.content_of found, shape] at held
    cases held
  rcases Standing.start.exists_start single ran new held with
    ⟨before, after, qname, opening, whole, ranBefore, size⟩
  exact ⟨qname, opening, ⟨before, after, whole, ranBefore⟩, size⟩

namespace Passage

theorem next_standing (passage : Passage events document event builder next final) :
    next.Standing :=
  passage.standing.kept passage.taken passage.step

theorem changes (passage : Passage events document event builder next final) :
    next.document.Changes document := by
  rcases passage.rest with ⟨_, _, _, _, ran⟩
  exact passage.handed ▸ changes_run ran

theorem next_accepted (passage : Passage events document event builder next final) :
    next.refusal = none := by
  rcases passage.rest with ⟨before, after, whole, _, ran⟩
  cases refused : next.refusal with
  | none => rfl
  | some refusal =>
      have kept :=
        (passage.next_standing.holds_of_run (fun _ => single_of_mem_after whole)
          (fun step noted => step.refusal_kept noted) refused ran).2
      cases kept.symm.trans passage.accepted

theorem content_eq (passage : Passage events document event builder next final)
    {id : NodeId} (past : Past id next) :
    document.content id = next.document.content id := by
  rcases passage.rest with ⟨before, after, whole, _, ran⟩
  exact passage.handed ▸
    passage.next_standing.content_of_past (fun _ => single_of_mem_after whole) ran past

theorem takes (passage : Passage events document event builder next final) :
    Takes events event builder := by
  rcases passage.rest with ⟨before, after, whole, ranBefore, _⟩
  exact ⟨before, after, whole, ranBefore⟩

end Passage

end Builder

end ResultTree
