import ResultTree.Proofs.Builder.Names
import ResultTree.Proofs.Builder.Numbering

namespace ResultTree

/-! When a written document is handed over, and what is told instead. There are two
things that writing may be refused for: a declaration that its element does not take, and
a prefix that denotes nothing when its element is closed. The first of them that is met
is told, and if none is, the document is handed over with all that was written in it. -/

namespace Builder

/-- What a step is refused for. Where an element is closed, that is the first of its
prefixes that denotes nothing. -/
inductive Meets (builder : Builder) : Event → Refusal → Prop
  | declare {node : NodeId} {nsPrefix : Option String} {uri : String} {refusal : Refusal}
      {left : Document} (here : builder.current = some node)
      (refused : (Edit.declare node nsPrefix uri).on builder.document =
        .ok (.error refusal, left)) :
      Meets builder (.declare nsPrefix uri) refusal
  | close {element : OpenElement} {outer : List OpenElement} {before after : List String}
      {nsPrefix : String} (opened : builder.opened = element :: outer)
      (uses : element.prefixes = before ++ nsPrefix :: after)
      (bound : ∀ earlier ∈ before, ∃ handle,
        builder.document.findPrefix element.node (some earlier) = .ok (some handle))
      (unbound : builder.document.findPrefix element.node (some nsPrefix) = .ok none) :
      Meets builder .close (.unboundPrefix element.node nsPrefix)

def Unrefused (steps : List Event) : Prop :=
  ∀ front event back builder refusal, steps = front ++ event :: back →
    run {} front = .ok builder → ¬ Meets builder event refusal

/-- What the first step that is refused is refused for. -/
def FirstMet (steps : List Event) (refusal : Refusal) : Prop :=
  ∃ front event back builder, steps = front ++ event :: back ∧ Unrefused front ∧
    run {} front = .ok builder ∧ Meets builder event refusal

inductive Uses (events : List Event) (id : NodeId) (nsPrefix : String) : Prop
  | element {qname : String} {opening : Builder}
      (takes : Takes events (.start qname) opening) (here : opening.document.size = id)
      (written : (splitQName qname).1 = some nsPrefix)
  | attr {qname value : String} {writing : Builder}
      (takes : Takes events (.attr qname value) writing)
      (here : writing.current = some id) (written : (splitQName qname).1 = some nsPrefix)

def BoundAtClose (events : List Event) (id : NodeId) (nsPrefix : String) : Prop :=
  ∃ element outer closing handle, Closes events element outer closing ∧
    element.node = id ∧
    closing.findPrefix id (some nsPrefix) = .ok (some handle)

/-- What writing comes to. An element that uses a prefix is closed once, so that it is
settled when the prefix has to be bound. -/
structure Outcome (events : List Event) : Prop where
  answered : ∃ answer, (Document.build events).run = .ok answer
  attached : ∀ {document : Document}, (Document.build events).run = .ok (.ok document) →
    ∀ id < document.size, ∃ way, document.ancestorsOrSelf id = .ok way ∧
      way.getLast? = some Document.root
  numbered : ∀ {document : Document}, (Document.build events).run = .ok (.ok document) →
    document.descendants Document.root = .ok (List.range document.size)
  once : ∀ {first second : OpenElement} {outer others : List OpenElement}
    {closing other : Document}, Closes events first outer closing →
    Closes events second others other → first.node = second.node →
    first = second ∧ outer = others ∧ closing = other
  handed : (∃ document, (Document.build events).run = .ok (.ok document)) ↔
    (∀ builder node nsPrefix uri refusal left,
      Takes events (.declare nsPrefix uri) builder →
      builder.current = some node →
      (Edit.declare node nsPrefix uri).on builder.document ≠ .ok (.error refusal, left)) ∧
    ∀ id nsPrefix, Uses events id nsPrefix → BoundAtClose events id nsPrefix
  refused : ∀ refusal, (Document.build events).run = .ok (.error refusal) ↔
    FirstMet (script events) refusal

variable {builder next : Builder} {event : Event} {events : List Event}
  {refusal : Refusal} {element : OpenElement} {outer : List OpenElement} {id : NodeId}
  {nsPrefix : String}

/-! ## One step -/

theorem current_of (opened : builder.opened = element :: outer) :
    builder.current = some element.node := by
  rw [current, opened]
  rfl

theorem Standing.findPrefix_eq_none_iff (standing : builder.Standing)
    (opened : builder.opened = element :: outer) :
    builder.document.findPrefix element.node (some nsPrefix) = .ok none ↔
      builder.scope.denoted? (some nsPrefix) = none := by
  rw [standing.findPrefix_of opened]
  cases builder.scope.denoted? (some nsPrefix) <;> simp

theorem Standing.exists_findPrefix_iff (standing : builder.Standing)
    (opened : builder.opened = element :: outer) :
    (∃ handle, builder.document.findPrefix element.node (some nsPrefix) =
        .ok (some handle)) ↔
      (builder.scope.denoted? (some nsPrefix)).isSome := by
  rw [standing.findPrefix_of opened]
  cases builder.scope.denoted? (some nsPrefix) <;> simp

theorem Standing.meets_close_iff (standing : builder.Standing)
    (opened : builder.opened = element :: outer) :
    Meets builder .close refusal ↔
      builder.scope.unbound? element.node element.prefixes = some refusal := by
  simp only [Scope.unbound?, Option.map_eq_some_iff, List.find?_eq_some_iff_append,
    Option.isNone_iff_eq_none, Bool.not_eq_true', Option.isNone_eq_false_iff]
  constructor
  · rintro @⟨⟩
    case close opened' uses bound unbound =>
      cases opened.symm.trans opened'
      refine ⟨_,
        ⟨(standing.findPrefix_eq_none_iff opened).mp unbound, _, _, uses, ?_⟩, rfl⟩
      exact fun earlier member =>
        (standing.exists_findPrefix_iff opened).mp (bound earlier member)
  · rintro ⟨nsPrefix, ⟨undenoted, before, after, uses, denoted⟩, rfl⟩
    refine .close opened uses (fun earlier member => ?_)
      ((standing.findPrefix_eq_none_iff opened).mpr undenoted)
    exact (standing.exists_findPrefix_iff opened).mpr (denoted earlier member)

/-- What is noted after a step, if nothing was before, is what the step is refused for. -/
theorem Standing.meets_iff (standing : builder.Standing) (step : builder.Step event next)
    (clear : builder.refusal = none) :
    Meets builder event refusal ↔ next.refusal = some refusal := by
  -- Where a step notes nothing, there is nothing for it to be refused for.
  have silent (kept : next.refusal = builder.refusal)
      (nothing : ¬ Meets builder event refusal) :
      Meets builder event refusal ↔ next.refusal = some refusal := by
    simp [kept, clear, nothing]
  cases step with
  | nowhere nothing =>
      apply silent rfl
      rintro ⟨here, _⟩
      simp [current, nothing] at here
  | @declared innermost outer element nsPrefix uri opened held declarable =>
      apply silent rfl
      intro meets
      cases meets with
      | declare here refused =>
          cases (current_of opened).symm.trans here
          cases (Edit.on_of (Edit.outcome_declare_of held declarable)).symm.trans refused
  | @refused innermost outer nsPrefix uri noted opened refused =>
      have here := current_of opened
      have answered := Edit.on_of refused
      rw [note, clear, Option.none_or, Option.some_inj]
      constructor
      · rintro ⟨there, refusedThere⟩
        cases here.symm.trans there
        cases answered.symm.trans refusedThere
        rfl
      · rintro rfl
        exact .declare here answered
  | surplus nothing =>
      apply silent rfl
      intro meets
      cases meets with
      | close opened => simp [nothing] at opened
  | close opened held => rw [standing.meets_close_iff opened, clear, Option.none_or]
  | attr qname value =>
      have kept : (builder.attr qname value).refusal = builder.refusal := by
        cases opened : builder.opened with
        | nil => rw [attr_of_nil opened]
        | cons innermost outer => rw [attr_of_cons opened]
      exact silent kept fun meets => by cases meets
  | start | text | comment | unmarked | line =>
      exact silent rfl fun meets => by cases meets

/-! ## All steps -/

theorem unrefused_nil : Unrefused [] := by
  intro front event back builder refusal whole
  simp at whole

theorem split_concat {steps front back : List Event} {last step : Event}
    (whole : steps ++ [last] = front ++ step :: back) :
    (front = steps ∧ step = last) ∨ ∃ rest, steps = front ++ step :: rest := by
  rcases List.eq_nil_or_concat back with rfl | ⟨rest, other, rfl⟩
  · rcases List.append_inj' whole rfl with ⟨rfl, same⟩
    exact .inl ⟨rfl, (List.cons.inj same).1.symm⟩
  · rw [List.concat_eq_append, ← List.cons_append, ← List.append_assoc] at whole
    exact .inr ⟨rest, (List.append_inj' whole rfl).1⟩

theorem unrefused_concat_iff (ran : run {} events = .ok builder) :
    Unrefused (events ++ [event]) ↔
      Unrefused events ∧ ∀ refusal, ¬ Meets builder event refusal := by
  constructor
  · intro unrefused
    constructor
    · rintro front step back reached refusal rfl ranFront
      exact unrefused front step (back ++ [event]) reached refusal (by simp) ranFront
    · exact fun refusal => unrefused events event [] builder refusal rfl ran
  · rintro ⟨unrefused, nothing⟩ front step back reached refusal whole ranFront
    rcases split_concat whole with ⟨rfl, rfl⟩ | ⟨rest, rfl⟩
    · cases ran.symm.trans ranFront
      exact nothing refusal
    · exact unrefused front step rest reached refusal rfl ranFront

theorem firstMet_concat_iff (ran : run {} events = .ok builder) :
    FirstMet (events ++ [event]) refusal ↔
      FirstMet events refusal ∨ Unrefused events ∧ Meets builder event refusal := by
  constructor
  · rintro ⟨front, step, back, reached, whole, unrefused, ranFront, meets⟩
    rcases split_concat whole with ⟨rfl, rfl⟩ | ⟨rest, rfl⟩
    · cases ran.symm.trans ranFront
      exact .inr ⟨unrefused, meets⟩
    · exact .inl ⟨front, step, rest, reached, rfl, unrefused, ranFront, meets⟩
  · rintro (⟨front, step, back, reached, rfl, unrefused, ranFront,
      meets⟩ | ⟨unrefused, meets⟩)
    · exact ⟨front, step, back ++ [event], reached, by simp, unrefused, ranFront, meets⟩
    · exact ⟨events, event, [], builder, rfl, unrefused, ran, meets⟩

theorem noted_of_run (single : ∀ event ∈ events, ∀ qname, event ≠ .leaf qname)
    (ran : run {} events = .ok builder) :
    (builder.refusal = none ↔ Unrefused events) ∧
      ∀ refusal, builder.refusal = some refusal ↔ FirstMet events refusal := by
  induction events using List.reverseRecOn generalizing builder with
  | nil =>
      cases ran
      refine ⟨by simp [unrefused_nil], fun refusal => ?_⟩
      simp [FirstMet]
  | append_singleton earlier event induction =>
      rw [run_append] at ran
      rcases Reading.bind_eq_ok_iff.mp ran with ⟨reached, ranEarlier, taken⟩
      have singleEarlier : ∀ event ∈ earlier, ∀ qname, event ≠ .leaf qname :=
        fun event member => single event (List.mem_append_left _ member)
      have standing : reached.Standing :=
        (Standing.start.holds_of_run singleEarlier (fun _ _ => trivial) trivial
          ranEarlier).1
      rcases standing.apply (single event (by simp)) with ⟨next, applied, step⟩
      have same : next = builder := by
        rw [run_cons, applied] at taken
        exact Except.ok.inj taken
      subst same
      rcases induction singleEarlier ranEarlier with ⟨clear, noted⟩
      rw [unrefused_concat_iff ranEarlier]
      simp only [firstMet_concat_iff ranEarlier, ← clear, ← noted]
      cases before : reached.refusal with
      | none => simp [standing.meets_iff step before, Option.eq_none_iff_forall_ne_some]
      | some refusal => simp [step.refusal_kept before]

/-! ## Where prefixes come from -/

def PrefixesUsed (events : List Event) (builder : Builder) : Prop :=
  ∀ element ∈ builder.opened, ∀ nsPrefix ∈ element.prefixes,
    Uses events element.node nsPrefix

theorem OpenElement.mem_prefixes_give {element : OpenElement}
    {qname value nsPrefix : String} :
    nsPrefix ∈ (element.give qname value).prefixes ↔
      nsPrefix ∈ element.prefixes ∨ (splitQName qname).1 = some nsPrefix := by
  simp [OpenElement.prefixes, OpenElement.give, or_assoc]

theorem OpenElement.Continues.prefixes_subset {later earlier : OpenElement}
    {added : List PendingAttribute} (continues : later.Continues earlier added) :
    earlier.prefixes ⊆ later.prefixes := by
  rw [OpenElement.prefixes, OpenElement.prefixes, continues.nsPrefix,
    continues.attributes, List.filterMap_append, ← List.append_assoc]
  exact List.subset_append_left _ _

theorem PrefixesUsed.kept (written : PrefixesUsed events builder)
    (takes : Takes events event builder) (step : builder.Step event next) :
    PrefixesUsed events next := by
  intro element member nsPrefix used
  cases step with
  | start qname =>
      rcases List.mem_cons.mp member with rfl | member
      · exact .element takes rfl (by simpa [OpenElement.prefixes] using used)
      · exact written element member nsPrefix used
  | attr qname value =>
      cases opened : builder.opened with
      | nil =>
          rw [attr_of_nil opened] at member
          exact written element member nsPrefix used
      | cons innermost outer =>
          rw [attr_of_cons opened] at member
          rcases List.mem_cons.mp member with rfl | member
          · rcases OpenElement.mem_prefixes_give.mp used with earlier | given
            · exact written innermost (by simp [opened]) nsPrefix earlier
            · exact .attr takes
                (show _ = some innermost.node from current_of opened) given
          · exact written element (by simp [opened, member]) nsPrefix used
  | close opened held =>
      exact written element (by simp [opened, member]) nsPrefix used
  | _ => exact written element member nsPrefix used

theorem prefixesUsed_of_run {before after : List Event}
    (whole : script events = before ++ after) (ran : run {} before = .ok builder) :
    PrefixesUsed events builder := by
  induction before using List.reverseRecOn generalizing builder after with
  | nil =>
      cases ran
      intro element member
      cases member
  | append_singleton earlier event induction =>
      rw [run_append] at ran
      rcases Reading.bind_eq_ok_iff.mp ran with ⟨reached, ranEarlier, taken⟩
      have takes : Takes events event reached :=
        ⟨earlier, after, by simpa using whole, ranEarlier⟩
      rcases takes.goesOn with ⟨next, _, _, applied, step, _⟩
      have same : next = builder := by
        rw [run_cons, applied] at taken
        exact Except.ok.inj taken
      subst same
      exact (induction (by simpa using whole) ranEarlier).kept takes step

/-! ## Where prefixes are resolved -/

theorem Uses.closes (uses : Uses events id nsPrefix) :
    ∃ element outer closing, Closes events element outer closing ∧ element.node = id ∧
      nsPrefix ∈ element.prefixes := by
  have closed {builder next : Builder} {event : Event} {element : OpenElement}
      (takes : Takes events event builder) (taken : builder.apply event = .ok next)
      (member : element ∈ next.opened) (here : element.node = id)
      (used : nsPrefix ∈ element.prefixes) : ∃ element outer closing,
        Closes events element outer closing ∧ element.node = id ∧
        nsPrefix ∈ element.prefixes := by
    rcases takes.closes taken member with ⟨last, outer, closing, _, closes, continues⟩
    exact ⟨last, outer, closing, closes, continues.node.trans here,
      continues.prefixes_subset used⟩
  cases uses with
  | @element qname opening takes here written =>
      rcases takes.goesOn with ⟨next, _, _, taken, step, _⟩
      cases step with
      | start =>
          have used : nsPrefix ∈
              OpenElement.prefixes ⟨opening.document.size, (splitQName qname).1, []⟩ := by
            simp [OpenElement.prefixes, written]
          exact closed takes taken List.mem_cons_self here used
  | @attr qname value writing takes here written =>
      rcases takes.goesOn with ⟨next, _, _, taken, step, _⟩
      cases opened : writing.opened with
      | nil => simp [current, opened] at here
      | cons innermost outer =>
          have same : innermost.node = id :=
            Option.some.inj ((current_of opened).symm.trans here)
          cases step with
          | attr =>
              rw [attr_of_cons opened] at taken
              exact closed takes taken List.mem_cons_self same
                (OpenElement.mem_prefixes_give.mpr (.inr written))

/-! ## Handing over -/

theorem handed_iff_unrefused :
    (∃ document, (Document.build events).run = .ok (.ok document)) ↔
      Unrefused (script events) := by
  rcases exists_final events with ⟨final, ran, _, _, result⟩
  rw [← (noted_of_run (fun _ => single_of_mem_script) ran).1, result]
  cases final.refusal <;> simp

theorem refused_iff_firstMet :
    (Document.build events).run = .ok (.error refusal) ↔
      FirstMet (script events) refusal := by
  rcases exists_final events with ⟨final, ran, _, _, result⟩
  rw [← (noted_of_run (fun _ => single_of_mem_script) ran).2, result]
  cases final.refusal <;> simp

theorem unrefused_iff :
    Unrefused (script events) ↔
      (∀ builder node nsPrefix uri refusal left,
        Takes events (.declare nsPrefix uri) builder →
        builder.current = some node →
        (Edit.declare node nsPrefix uri).on builder.document ≠
          .ok (.error refusal, left)) ∧
      ∀ id nsPrefix, Uses events id nsPrefix → BoundAtClose events id nsPrefix := by
  constructor
  · intro unrefused
    constructor
    · rintro builder node nsPrefix uri refusal left ⟨before, after, whole, ran⟩
        here refused
      exact unrefused before _ after builder refusal whole ran (.declare here refused)
    · rintro id nsPrefix uses
      rcases uses.closes with
        ⟨element, outer, _, ⟨builder, takes, opened, rfl⟩, here, used⟩
      rcases takes.goesOn with ⟨_, _, standing, _⟩
      rcases takes with ⟨before, after, whole, ran⟩
      have bound : builder.scope.unbound? element.node element.prefixes = none := by
        apply Option.eq_none_iff_forall_ne_some.mpr
        intro refusal unbound
        exact unrefused before _ after builder refusal whole ran
          ((standing.meets_close_iff opened).mpr unbound)
      have denoted := Option.isSome_iff_exists.mpr
        (Scope.unbound?_eq_none_iff.mp bound nsPrefix used)
      rcases (standing.exists_findPrefix_iff opened).mpr denoted with ⟨handle, told⟩
      exact ⟨element, outer, _, handle,
        ⟨builder, ⟨before, after, whole, ran⟩, opened, rfl⟩, here,
        here ▸ told⟩
  · rintro ⟨declared, bound⟩ before step after builder refusal whole ran meets
    cases meets with
    | declare here refused =>
        exact declared builder _ _ _ refusal _ ⟨before, after, whole, ran⟩ here refused
    | @close element outer _ _ nsPrefix opened uses _ unbound =>
        have used := prefixesUsed_of_run whole ran element (by simp [opened]) nsPrefix
          (by simp [uses])
        rcases bound element.node nsPrefix used with
          ⟨last, others, _, handle, ⟨other, takes, openedOther, rfl⟩, same, told⟩
        have takesHere : Takes events .close builder := ⟨before, after, whole, ran⟩
        have sameState := takes.eq_of_closed takesHere openedOther opened same
        subst sameState
        cases told.symm.trans unbound

/-- A written document has its nodes in document order, and it is handed over unless
writing has been refused, of which the first refusal tells. -/
theorem outcome_of_build (events : List Event) : Outcome events where
  answered := by
    rcases exists_final events with ⟨final, _, _, _, result⟩
    exact ⟨_, result⟩
  attached := by
    intro document built id inside
    rcases inOrder_of_build built with ⟨linked, _, order⟩
    exact linked.attached_iff.mp (order.attached linked inside)
  numbered := by
    intro document built
    rcases inOrder_of_build built with ⟨linked, _, order⟩
    rw [linked.descendants_root, order.subtree_root linked]
  once := by
    rintro first second outer others _ _ ⟨builder, takes, opened, rfl⟩
      ⟨other, takesOther, openedOther, rfl⟩ same
    have sameState := takes.eq_of_closed takesOther opened openedOther same
    subst sameState
    cases opened.symm.trans openedOther
    exact ⟨rfl, rfl, rfl⟩
  handed := handed_iff_unrefused.trans unrefused_iff
  refused := fun _ => refused_iff_firstMet

/-- Closing too often, text at the top and an element left open are no refusals. -/
example :
    (Document.build [.text "a", .close, .start "p:e", .declare (some "p") "urn:a",
      .leaf "f",
      .close, .close, .start "p:g", .declare (some "p") "urn:b", .text "b"]).run.map
        (·.map fun document => (document.size, document.descendants Document.root)) =
      .ok (.ok (6, .ok [0, 1, 2, 3, 4, 5])) := rfl

/-- The prefix of an element that is left open is found unbound at the end, after what has
been refused by then. -/
example :
    (Document.build [.start "p:e", .start "q:f", .attr "r:a" "1"]).run =
        .ok (.error (.unboundPrefix 2 "q")) ∧
      (Document.build [.start "p:e", .leaf "q:f", .declare (some "xml") "urn:a"]).run =
        .ok (.error (.unboundPrefix 2 "q")) ∧
      (Document.build [.start "p:e", .start "q:f", .declare (some "xml") "urn:a"]).run =
        .ok (.error (.reservedPrefix "xml")) := ⟨rfl, rfl, rfl⟩

end Builder

end ResultTree
