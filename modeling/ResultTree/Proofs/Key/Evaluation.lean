import ResultTree.Key.Definition
import ResultTree.Proofs.Document.Handles

namespace ResultTree.Key

/-! Patterns have an answer at every node of a document whose handles all denote
something: a test looks at one name, and a path climbs no further than there are
tests. -/

variable {document : Document} {id : NodeId}

theorem NodeTest.exists_accepts (known : document.AllKnown) (inside : id < document.size)
    (test : NodeTest) : ∃ passed, test.accepts document id = .ok passed := by
  rcases Document.exists_node_iff.mpr inside with ⟨node, found⟩
  have held := Document.content_of found
  cases shape : node.content with
  | element element =>
      rw [shape] at held
      rcases Document.exists_uri? fun handle own =>
        known id element held handle (Element.own_mem_handles own) with ⟨uri, denoted⟩
      cases test <;> simp [NodeTest.accepts, held, denoted]
  | _ => cases test <;> simp [NodeTest.accepts, held, shape]

theorem exists_climbs (linked : document.Linked) (known : document.AllKnown)
    (inside : id < document.size) (tests : List NodeTest) :
    ∃ passed, climbs document tests id = .ok passed := by
  induction tests generalizing id with
  | nil => exact ⟨true, rfl⟩
  | cons test outer induction =>
      rw [climbs, Document.parent_eq_parentLink inside, Reading.ok_bind]
      cases link : document.parentLink id with
      | none => exact ⟨false, rfl⟩
      | some parent =>
          have parentInside := linked.parentInside link
          rcases test.exists_accepts known parentInside with ⟨passed, tested⟩
          rcases induction parentInside with ⟨rest, climbed⟩
          cases passed <;> simp [tested, climbed]

theorem exists_endsPath (linked : document.Linked) (known : document.AllKnown)
    (inside : id < document.size) (path : List NodeTest) :
    ∃ passed, endsPath document path id = .ok passed := by
  unfold endsPath
  cases path.reverse with
  | nil => exact ⟨false, rfl⟩
  | cons last outer =>
      rcases last.exists_accepts known inside with ⟨passed, tested⟩
      rcases exists_climbs linked known inside outer with ⟨rest, climbed⟩
      cases passed <;> simp [tested, climbed]

theorem Definition.exists_accepts (linked : document.Linked) (known : document.AllKnown)
    (inside : id < document.size) (definition : Definition) :
    ∃ passed, definition.accepts document id = .ok passed :=
  Reading.exists_anyM fun path _ => exists_endsPath linked known inside path

end ResultTree.Key
