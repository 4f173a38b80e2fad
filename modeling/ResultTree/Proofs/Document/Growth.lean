import Mathlib.Data.List.Infix
import ResultTree.Proofs.Document.Handles
import ResultTree.Proofs.Document.Loops

namespace ResultTree.Document

/-! What changes leave of the scopes in a document. Nothing that is declared goes away,
so a prefix goes on denoting what it denotes at a node, unless a nearer declaration of it
comes to stand on the way up. -/

variable {document changed : Document} {id : NodeId} {nodes : List NodeId}

theorem getElem?_declared_iff {index : Nat} {declaration : Declaration} :
    (document.declared id)[index]? = some declaration ↔
      declaration.handle = ⟨id, index⟩ ∧
        document.binding ⟨id, index⟩ = .ok declaration.binding := by
  rcases declaration with ⟨handle, binding⟩
  rw [binding_eq_ok_iff]
  cases found : document.nodes[id]? with
  | none => simp [declared, found]
  | some node =>
      simp only [declared_of found, List.getElem?_mapIdx, Option.map_eq_some_iff,
        Option.some.injEq, Declaration.mk.injEq, exists_eq_left']
      constructor
      · rintro ⟨held, declared, rfl, rfl⟩
        exact ⟨rfl, declared⟩
      · rintro ⟨rfl, declared⟩
        exact ⟨_, declared, rfl, rfl⟩

theorem Extends.declared (extended : changed.Extends document) (id : NodeId) :
    document.declared id <+: changed.declared id := by
  rw [List.prefix_iff_getElem?]
  intro index inside
  rcases getElem?_declared_iff.mp (List.getElem?_eq_getElem inside) with ⟨handle, known⟩
  exact getElem?_declared_iff.mpr ⟨handle, extended _ _ known⟩

theorem Extends.mem_declared_of_known (extended : changed.Extends document)
    {declaration : Declaration} (member : declaration ∈ changed.declared id)
    {known : Binding} (denoted : document.binding declaration.handle = .ok known) :
    declaration ∈ document.declared id := by
  rcases List.mem_iff_getElem?.mp member with ⟨index, declared⟩
  rcases getElem?_declared_iff.mp declared with ⟨handle, here⟩
  rw [handle] at denoted
  cases (extended _ _ denoted).symm.trans here
  exact List.mem_of_getElem? (getElem?_declared_iff.mpr ⟨handle, denoted⟩)

/-- A prefix denotes what it did along a way up, or a declaration that has come to it. -/
theorem Extends.denoted_cases (extended : changed.Extends document) (nodes : List NodeId)
    (nsPrefix : Option String) :
    (changed.scopeAlong nodes).denoted? nsPrefix =
      (document.scopeAlong nodes).denoted? nsPrefix ∨
      ∃ found, (changed.scopeAlong nodes).denoted? nsPrefix = some found ∧
        found.handle.owner ∈ nodes ∧
        ∀ known, document.binding found.handle ≠ .ok known := by
  by_cases isXml : nsPrefix = some "xml"
  · exact .inl (by simp [Scope.denoted?, isXml])
  simp only [Scope.denoted?, isXml, if_false, scopeAlong]
  induction nodes with
  | nil => exact .inl rfl
  | cons node rest induction =>
      simp only [List.flatMap_cons, List.find?_append]
      cases before : (document.declared node).find? (·.binding.nsPrefix = nsPrefix) with
      | some declaration =>
          rw [(extended.declared node).find?_eq_some before]
          exact .inl rfl
      | none =>
          cases after : (changed.declared node).find? (·.binding.nsPrefix = nsPrefix) with
          | some declaration =>
              have member := List.mem_of_find?_eq_some after
              refine .inr ⟨declaration, rfl, ?_, fun known denoted => ?_⟩
              · exact (binding_of_mem_declared member).1 ▸ List.mem_cons_self
              · have absent := List.find?_eq_none.mp before declaration
                  (extended.mem_declared_of_known member denoted)
                simp [List.find?_some after] at absent
          | none =>
              rcases induction with same | ⟨found, denoted, owner, new⟩
              · exact .inl same
              · exact .inr ⟨found, denoted, List.mem_cons_of_mem _ owner, new⟩

/-! ## Ways and names stay -/

theorem Changes.parentLink_of_some (changes : Changes document changed)
    {lower upper : NodeId} (link : document.parentLink lower = some upper) :
    changed.parentLink lower = some upper := by
  induction changes with
  | refl => exact link
  | tail _ change induction =>
      cases change with
      | touch touch => rw [touch.parentLink_eq, induction]
      | attach joinable => exact parentLink_attach_of_some joinable induction

theorem Changes.way (changes : Changes document changed) (linked : document.Linked)
    (way : document.Way id (nodes ++ [root])) : changed.Way id (nodes ++ [root]) := by
  refine way.of_sameLinks fun passed member => ?_
  cases link : document.parentLink passed with
  | some upper => exact changes.parentLink_of_some link
  | none =>
      -- Only the last node of a way has no parent.
      rcases way.from_mem member with ⟨before, above, same, rest⟩
      rw [rest.unique (.top link)] at same
      have last : root = passed := by simpa using congrArg List.getLast? same
      rw [← last]
      exact (changes.linked linked).rootLoose

theorem Change.element (change : Change document changed) {element : Element}
    (held : document.content id = .ok (.element element)) :
    ∃ later, changed.content id = .ok (.element later) ∧ later.name = element.name := by
  rcases content_eq_ok_iff.mp held with ⟨node, found, shape⟩
  have put {target : NodeId} {present : Element} (replacement : Element)
      (targetHeld : document.content target = .ok (.element present))
      (name : replacement.name = present.name) :
      ∃ later, (document.putElement target replacement).content id =
        .ok (.element later) ∧
        later.name = element.name := by
    by_cases same : id = target
    · subst same
      cases held.symm.trans targetHeld
      exact ⟨_, content_putElement _ held, name⟩
    · refine ⟨element, content_eq_ok_iff.mpr ⟨node, ?_, shape⟩, rfl⟩
      simp [nodes_putElement, found, same]
  cases change with
  | attach joinable =>
      refine ⟨element, content_eq_ok_iff.mpr ?_, rfl⟩
      rw [nodes_attach, found]
      exact ⟨_, rfl, shape⟩
  | touch touch =>
      cases touch with
      | allocate fresh =>
          refine ⟨element, content_eq_ok_iff.mpr ⟨node, ?_, shape⟩, rfl⟩
          rw [nodes_allocate, if_neg (Nat.ne_of_lt (lt_size_of_node found)), found]
      | line target line =>
          refine ⟨element, content_eq_ok_iff.mpr ?_, rfl⟩
          rw [nodes_modify, found]
          split <;> exact ⟨_, rfl, shape⟩
      | ownNamespace targetHeld ns => exact put _ targetHeld rfl
      | attributes targetHeld _ _ => exact put _ targetHeld rfl
      | declaration targetHeld _ => exact put _ targetHeld rfl

theorem Changes.element (changes : Changes document changed) {element : Element}
    (held : document.content id = .ok (.element element)) :
    ∃ later, changed.content id = .ok (.element later) ∧ later.name = element.name := by
  induction changes with
  | refl => exact ⟨element, held, rfl⟩
  | tail _ change induction =>
      rcases induction with ⟨middle, middleHeld, middleName⟩
      rcases change.element middleHeld with ⟨later, laterHeld, name⟩
      exact ⟨later, laterHeld, name.trans middleName⟩

end ResultTree.Document
