import ResultTree.Proofs.Builder.Closing
import ResultTree.Proofs.Document.Growth

namespace ResultTree

/-! What the names of a written document mean. A prefix is resolved when its element is
closed, with the declarations that have been made by then. Elements around it may still
be open, and a declaration that one of them gets later on may overtake: in the document
that is handed over, the prefix then denotes something else at the element than the name
carries. That is the only way in which a document that is written can come to be
inconsistent. -/

/-- The namespace for the name of an element, written with a prefix or without one, is
what the prefix denotes there or else the default namespace, unless that is empty. -/
inductive Document.Gives (document : Document) (id : NodeId) :
    Option String → Option Handle → Prop
  | prefixed {nsPrefix : String} {handle : Handle}
      (found : document.findPrefix id (some nsPrefix) = .ok (some handle)) :
      Gives document id (some nsPrefix) (some handle)
  | default {handle : Handle} {binding : Binding}
      (found : document.findPrefix id none = .ok (some handle))
      (known : document.binding handle = .ok binding) (something : binding.uri ≠ "") :
      Gives document id none (some handle)
  | bare (bare : document.Bare id) : Gives document id none none

theorem Document.binding_congr {document changed : Document} {handle : Handle}
    (same : changed.declarations handle.owner = document.declarations handle.owner) :
    changed.binding handle = document.binding handle := by
  rw [binding, binding, same]

namespace Builder

/-- A prefix denotes, at an element of the written document, a binding that was declared
after the element was closed, by an element around it that was still open. -/
structure Overtakes (closing : Document) (outer : List OpenElement) (document : Document)
    (id : NodeId) (nsPrefix : Option String) (handle : Handle) : Prop where
  found : document.findPrefix id nsPrefix = .ok (some handle)
  around : ∃ element ∈ outer, handle.owner = element.node
  later : ∀ binding, closing.binding handle ≠ .ok binding

/-- An attribute is named with what its prefix denoted when its element was closed. It
still denotes that in the written document unless it is overtaken. -/
structure Resolves (closing : Document) (outer : List OpenElement) (document : Document)
    (id : NodeId) (pending : PendingAttribute) (named : Named) : Prop where
  name : named.name = pending.name
  value : named.value = pending.value
  plain : pending.nsPrefix = none → named.ns = none
  prefixed : ∀ nsPrefix, pending.nsPrefix = some nsPrefix →
    ∃ found, named.ns = some found ∧
    document.binding found.handle = .ok found.binding ∧
    closing.findPrefix id (some nsPrefix) = .ok (some found.handle) ∧
    (document.findPrefix id (some nsPrefix) = .ok (some found.handle) ↔
      ¬ ∃ handle, Overtakes closing outer document id (some nsPrefix) handle)

variable {builder next final : Builder} {events : List Event} {element : OpenElement}
  {outer : List OpenElement} {document : Document}

theorem Standing.findPrefix_of (standing : builder.Standing)
    (opened : builder.opened = element :: outer) (nsPrefix : Option String) :
    builder.document.findPrefix element.node nsPrefix =
      .ok ((builder.scope.denoted? nsPrefix).map Declaration.handle) := by
  rw [scope, trail_of opened]
  exact (standing.way_of opened).findPrefix standing.linked
    (standing.inside (by simp [opened])) nsPrefix

namespace Passage

theorem linked (passage : Passage events document .close builder next final) :
    document.Linked :=
  passage.changes.linked passage.next_standing.linked

theorem extends_closing (passage : Passage events document .close builder next final) :
    document.Extends builder.document :=
  Document.Changes.extends ((changes_apply passage.taken).trans passage.changes)

theorem closed (passage : Passage events document .close builder next final)
    (opened : builder.opened = element :: outer) :
    ∃ name declarations,
      builder.document.content element.node = .ok (.element { name, declarations }) ∧
      document.content element.node =
        .ok (.element (element.settled builder.scope name declarations)) ∧
      ∀ nsPrefix ∈ element.prefixes,
        ∃ found, builder.scope.denoted? (some nsPrefix) = some found := by
  have standing := passage.standing
  have contentEq := @passage.content_eq
  have accepted := passage.next_accepted
  cases passage.step with
  | surplus nothing => simp [nothing] at opened
  | @close innermost others name declarations openedHere held =>
      cases openedHere.symm.trans opened
      refine ⟨name, declarations, held, ?_, ?_⟩
      · rw [contentEq ⟨?_, standing.innermost_notMem opened⟩]
        · exact Document.content_putElement _ held
        · simpa using standing.inside (by simp [opened])
      · exact Scope.unbound?_eq_none_iff.mp (Option.or_eq_none_iff.mp accepted).2

theorem declares_later (passage : Passage events document .close builder next final)
    (opened : builder.opened = element :: outer) {owner : NodeId}
    (passed : owner ∈ element.node :: outer.map OpenElement.node ++ [Document.root])
    (changed : document.declarations owner ≠ builder.document.declarations owner) :
    ∃ around ∈ outer, owner = around.node := by
  rcases passage.closed opened with ⟨name, declarations, held, laterHeld, _⟩
  rcases List.mem_append.mp passed with passed | top
  · rcases List.mem_cons.mp passed with here | passed
    · refine absurd ?_ changed
      rw [here, Document.declarations_of_element laterHeld,
        Document.declarations_of_element held]
      rfl
    · rcases List.mem_map.mp passed with ⟨around, member, same⟩
      exact ⟨around, member, same.symm⟩
  · -- The document node declares the same at any time.
    refine absurd ?_ changed
    rcases passage.standing.linked.top with ⟨node, rootFound, shape, _⟩
    rcases passage.linked.top with ⟨laterNode, laterFound, laterShape, _⟩
    rw [List.mem_singleton.mp top, Document.declarations_of rootFound,
      Document.declarations_of laterFound, shape, laterShape]

/-- A prefix denotes at a closed element what it did then, or is overtaken. -/
theorem findPrefix_cases (passage : Passage events document .close builder next final)
    (opened : builder.opened = element :: outer) (nsPrefix : Option String) :
    document.findPrefix element.node nsPrefix =
        builder.document.findPrefix element.node nsPrefix ∨
      ∃ handle,
        Overtakes builder.document outer document element.node nsPrefix handle := by
  have changes : builder.document.Changes document :=
    (changes_apply passage.taken).trans passage.changes
  have laterWay : document.Way element.node
      ((element.node :: outer.map OpenElement.node) ++ [Document.root]) :=
    changes.way passage.standing.linked (passage.standing.way_of opened)
  rcases passage.closed opened with ⟨_, _, _, laterHeld, _⟩
  have inside := Document.lt_size_of_content laterHeld
  have answered := laterWay.findPrefix passage.linked inside nsPrefix
  rw [passage.standing.findPrefix_of opened, scope, Standing.trail_of opened]
  rcases passage.extends_closing.denoted_cases
    ((element.node :: outer.map OpenElement.node) ++ [Document.root]) nsPrefix with
    same | ⟨found, denoted, passed, new⟩
  · left
    rw [answered, same]
    rfl
  · right
    rw [denoted] at answered
    have known := passage.linked.binding_of_denoted denoted
    have changed : document.declarations found.handle.owner ≠
        builder.document.declarations found.handle.owner := fun same =>
      new _ ((Document.binding_congr same).symm.trans known)
    exact ⟨found.handle, answered, passage.declares_later opened passed changed, new⟩

theorem findPrefix_ne_of_overtakes
    (passage : Passage events document .close builder next final) {id : NodeId}
    {nsPrefix : Option String} {handle : Handle}
    (overtakes : Overtakes builder.document outer document id nsPrefix handle) :
    builder.document.findPrefix id nsPrefix ≠ .ok (some handle) := by
  intro found
  rcases passage.standing.linked.binding_of_findPrefix found with ⟨binding, known⟩
  exact overtakes.later binding known

theorem findPrefix_iff (passage : Passage events document .close builder next final)
    (opened : builder.opened = element :: outer) {nsPrefix : Option String}
    {handle : Handle}
    (found : builder.document.findPrefix element.node nsPrefix = .ok (some handle)) :
    document.findPrefix element.node nsPrefix = .ok (some handle) ↔
      ¬ ∃ other,
        Overtakes builder.document outer document element.node nsPrefix other := by
  constructor
  · rintro stays ⟨other, overtakes⟩
    cases stays.symm.trans overtakes.found
    exact passage.findPrefix_ne_of_overtakes overtakes found
  · intro free
    rcases passage.findPrefix_cases opened nsPrefix with same | overtaken
    · rw [same, found]
    · exact absurd overtaken free

theorem gives (passage : Passage events document .close builder next final)
    (opened : builder.opened = element :: outer) :
    builder.document.Gives element.node element.nsPrefix
      ((builder.scope.own? element.nsPrefix).map Declaration.handle) := by
  rcases passage.closed opened with ⟨_, _, _, _, bound⟩
  have answered := passage.standing.findPrefix_of opened
  cases prefixed : element.nsPrefix with
  | some nsPrefix =>
      rcases bound nsPrefix (by simp [OpenElement.prefixes, prefixed]) with
        ⟨found, denoted⟩
      rw [Scope.own?, denoted]
      exact .prefixed (by rw [answered, denoted]; rfl)
  | none =>
      cases denoted : builder.scope.denoted? none with
      | none =>
          rw [Scope.own?, denoted]
          exact .bare (.inl (by rw [answered, denoted]; rfl))
      | some found =>
          have default : builder.document.findPrefix element.node none =
              .ok (some found.handle) := by
            rw [answered, denoted]
            rfl
          have known := passage.standing.linked.binding_of_denoted denoted
          by_cases empty : found.binding.uri = ""
          · simpa [Scope.own?, denoted, empty, Option.filter] using
              Document.Gives.bare (.inr ⟨_, _, default, known, empty⟩)
          · simpa [Scope.own?, denoted, empty, Option.filter] using
              Document.Gives.default default known empty

theorem not_overtaken_iff (passage : Passage events document .close builder next final)
    {id : NodeId} {nsPrefix : Option String} {handle : Handle} :
    (¬ ∃ other binding, Overtakes builder.document outer document id nsPrefix other ∧
        document.binding other = .ok binding ∧ (some handle = none → binding.uri ≠ "")) ↔
      ¬ ∃ other, Overtakes builder.document outer document id nsPrefix other := by
  refine not_congr ⟨fun ⟨other, _, overtakes, _⟩ => ⟨other, overtakes⟩, ?_⟩
  rintro ⟨other, overtakes⟩
  rcases passage.linked.binding_of_findPrefix overtakes.found with ⟨binding, known⟩
  exact ⟨other, binding, overtakes, known, by simp⟩

theorem gives_iff (passage : Passage events document .close builder next final)
    (opened : builder.opened = element :: outer) {nsPrefix : Option String}
    {ns : Option Handle} (gives : builder.document.Gives element.node nsPrefix ns) :
    document.Gives element.node nsPrefix ns ↔
      ¬ ∃ other binding,
        Overtakes builder.document outer document element.node nsPrefix other ∧
        document.binding other = .ok binding ∧ (ns = none → binding.uri ≠ "") := by
  cases gives with
  | prefixed found =>
      rw [passage.not_overtaken_iff, ← passage.findPrefix_iff opened found]
      exact ⟨fun | .prefixed stays => stays, .prefixed⟩
  | default found known something =>
      rw [passage.not_overtaken_iff, ← passage.findPrefix_iff opened found]
      exact ⟨fun | .default stays _ _ => stays,
        fun stays => .default stays (passage.extends_closing _ _ known) something⟩
  | bare bare =>
      constructor
      · rintro (_ | _ | bareLater) ⟨other, binding, overtakes, known, something⟩
        rcases bareLater with nothing | ⟨handle, held, found, heldKnown, empty⟩
        · cases nothing.symm.trans overtakes.found
        · cases found.symm.trans overtakes.found
          cases heldKnown.symm.trans known
          exact something rfl empty
      · intro free
        refine .bare ?_
        rcases passage.findPrefix_cases opened none with same | ⟨other, overtakes⟩
        · rcases bare with nothing | ⟨handle, held, found, known, empty⟩
          · exact .inl (same.trans nothing)
          · exact .inr ⟨handle, held, same.trans found,
              passage.extends_closing _ _ known, empty⟩
        · rcases passage.linked.binding_of_findPrefix overtakes.found with
            ⟨binding, known⟩
          refine .inr ⟨other, binding, overtakes.found, known, ?_⟩
          by_contra something
          exact free ⟨other, binding, overtakes, known, fun _ => something⟩

theorem resolves (passage : Passage events document .close builder next final)
    (opened : builder.opened = element :: outer) {pending : PendingAttribute}
    (member : pending ∈ element.attributes) :
    Resolves builder.document outer document element.node pending
      (pending.named builder.scope) where
  name := rfl
  value := rfl
  plain := fun plain => by simp [PendingAttribute.named, plain]
  prefixed := by
    intro nsPrefix prefixed
    rcases passage.closed opened with ⟨_, _, _, _, bound⟩
    have listed : nsPrefix ∈ element.prefixes :=
      List.mem_append_right _ (List.mem_filterMap.mpr ⟨pending, member, prefixed⟩)
    rcases bound nsPrefix listed with ⟨found, denoted⟩
    have answered : builder.document.findPrefix element.node (some nsPrefix) =
        .ok (some found.handle) := by
      rw [passage.standing.findPrefix_of opened, denoted]
      rfl
    have known := passage.standing.linked.binding_of_denoted denoted
    exact ⟨found, by simp [PendingAttribute.named, prefixed, denoted],
      passage.extends_closing _ _ known, answered, passage.findPrefix_iff opened answered⟩

end Passage

/-- The names of a document are what has been written. Every element that is started is
closed with the attributes that have been given to it, in order, and named then. -/
structure Names (events : List Event) (document : Document) : Prop where
  started : ∀ qname opening, Takes events (.start qname) opening →
    ∃ element outer closing, Closes events element outer closing ∧
      element.node = opening.document.size ∧ element.nsPrefix = (splitQName qname).1 ∧
      document.localName? element.node = .ok (some (splitQName qname).2)
  complete : ∀ id held, document.content id = .ok (.element held) →
    ∃ qname opening, Takes events (.start qname) opening ∧ opening.document.size = id
  given : ∀ qname value writing id, Takes events (.attr qname value) writing →
    writing.current = some id →
    ∃ element outer closing, Closes events element outer closing ∧ element.node = id ∧
      ⟨(splitQName qname).1, (splitQName qname).2, value⟩ ∈ element.attributes
  written : ∀ before qname after opening element outer closing,
    script events = before ++ .start qname :: after → run {} before = .ok opening →
    Closes events element outer closing → element.node = opening.document.size →
    element.attributes = attributesFor 0 after
  closed : ∀ element outer closing, Closes events element outer closing →
    ∃ held, document.content element.node = .ok (.element held) ∧
      closing.Gives element.node element.nsPrefix held.ns ∧
      (document.Gives element.node element.nsPrefix held.ns ↔
        ¬ ∃ other binding,
          Overtakes closing outer document element.node element.nsPrefix other ∧
          document.binding other = .ok binding ∧ (held.ns = none → binding.uri ≠ "")) ∧
      ∃ named, List.Forall₂ (Resolves closing outer document element.node)
          element.attributes named ∧
        held.attributes = (Named.putAll named).map Named.toAttribute

theorem attributes_of_closes {before after : List Event} {qname : String}
    {opening : Builder} {closing : Document}
    (whole : script events = before ++ .start qname :: after)
    (ran : run {} before = .ok opening) (closes : Closes events element outer closing)
    (same : element.node = opening.document.size) :
    element.attributes = attributesFor 0 after := by
  rcases goesOn_of_run whole ran with ⟨next, _, _, taken, step, _⟩
  have started : next.opened =
      [] ++ ⟨opening.document.size, (splitQName qname).1, []⟩ :: opening.opened := by
    cases step
    rfl
  rcases exists_closes whole ran taken started with
    ⟨last, _, ⟨builder, takes, opened, _⟩, continues⟩
  rcases closes with ⟨other, takesOther, openedOther, _⟩
  have sameState := takes.eq_of_closed takesOther opened openedOther
    (continues.node.trans same.symm)
  subst sameState
  cases opened.symm.trans openedOther
  exact continues.attributes

/-- Every name of a document that is handed over is what its prefix denoted when the
element was closed, and what it denotes in the document but where a later declaration
overtakes. -/
theorem names_of_build (built : (Document.build events).run = .ok (.ok document)) :
    Names events document where
  started := by
    intro qname opening takes
    rcases takes.passage built with ⟨next, final, passage⟩
    have started : next.document.content opening.document.size =
        .ok (.element { name := (splitQName qname).2 }) ∧
        ⟨opening.document.size, (splitQName qname).1, []⟩ ∈ next.opened := by
      cases passage.step
      exact ⟨Document.content_appended_new, List.mem_cons_self⟩
    rcases passage.takes.closes passage.taken started.2 with
      ⟨element, outer, closing, _, closes, continues⟩
    refine ⟨element, outer, closing, closes, continues.node, continues.nsPrefix, ?_⟩
    rcases passage.changes.element started.1 with ⟨later, held, name⟩
    rw [continues.node, Document.localName?, Document.element?, held]
    exact congrArg (fun localName => Except.ok (some localName)) name
  complete := fun _ _ => exists_start_of_build built
  given := by
    intro qname value writing id takes here
    rcases takes.passage built with ⟨next, final, passage⟩
    cases opened : writing.opened with
    | nil => simp [current, opened] at here
    | cons innermost others =>
        have same : innermost.node = id := by simpa [current, opened] using here
        have given : innermost.give qname value ∈ next.opened := by
          cases passage.step
          rw [attr_of_cons opened]
          exact List.mem_cons_self
        rcases passage.takes.closes passage.taken given with
          ⟨element, outer, closing, _, closes, continues⟩
        refine ⟨element, outer, closing, closes, continues.node.trans same, ?_⟩
        rw [continues.attributes]
        exact List.mem_append_left _ (List.mem_append_right _ List.mem_cons_self)
  written := fun _ _ _ _ _ _ _ => attributes_of_closes
  closed := by
    rintro element outer closing ⟨builder, takes, opened, rfl⟩
    rcases takes.passage built with ⟨next, final, passage⟩
    rcases passage.closed opened with ⟨name, declarations, _, held, _⟩
    refine ⟨_, held, passage.gives opened,
      passage.gives_iff opened (passage.gives opened), ?_⟩
    refine ⟨element.attributes.map (·.named builder.scope), ?_, rfl⟩
    exact List.forall₂_map_right_iff.mpr
      (List.forall₂_same.mpr fun pending member => passage.resolves opened member)

/-- An element is closed with the prefix of an outer declaration, and then one between
the two declares the prefix again. -/
def overtakenPrefix : List Event :=
  [.start "root", .declare (some "p") "urn:a", .start "mid", .leaf "p:leaf",
    .declare (some "p") "urn:b", .close, .close]

theorem names_of_build_overtakenPrefix :
    ∃ document, (Document.build overtakenPrefix).run = .ok (.ok document) ∧
      Names overtakenPrefix document := by
  have built : ∃ document, (Document.build overtakenPrefix).run = .ok (.ok document) :=
    ⟨_, rfl⟩
  rcases built with ⟨document, built⟩
  exact ⟨document, built, names_of_build built⟩

/-- The element that is written with a prefix does not carry what the prefix denotes
there. -/
theorem inconsistent_of_overtakenPrefix :
    ∃ document opening, (Document.build overtakenPrefix).run = .ok (.ok document) ∧
      Takes overtakenPrefix (.start "p:leaf") opening ∧
      document.ownNamespace? opening.document.size = .ok (some ⟨1, 0⟩) ∧
      document.findPrefix opening.document.size (some "p") = .ok (some ⟨2, 0⟩) := by
  refine ⟨_, _, rfl,
    ⟨[.start "root", .declare (some "p") "urn:a", .start "mid"], _, rfl, rfl⟩,
    ?_, ?_⟩ <;> decide

end Builder

end ResultTree
