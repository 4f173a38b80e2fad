import ResultTree.Proofs.Document.Interlinking
import ResultTree.Proofs.Document.Loops

namespace ResultTree.Document

/-! What a walk over a subtree is by definition, with no list of pending nodes and no
bound: a node comes before what is below its children, child after child. Where the way
up from a node ends, the walk gives just that. The text of a container is the same
recursion over its children. -/

/-- The nodes at and below some nodes, one of these after the other, each node before
what is below its children. -/
inductive Preorder (document : Document) : List NodeId → List NodeId → Prop
  | done : Preorder document [] []
  | next {id : NodeId} {children below rest others : List NodeId}
      (listed : document.children id = .ok children)
      (down : Preorder document children below) (on : Preorder document rest others) :
      Preorder document (id :: rest) (id :: (below ++ others))

/-- What a child adds to the text of its parent: a text adds itself, an element what its
own text is, and any other node nothing. -/
def contribution (document : Document) (child : NodeId) : Reading String := do
  match ← document.content child with
  | .text text => return text
  | .element _ => document.stringValue child
  | .document | .comment _ | .instruction _ _ => return ""

/-- A walk from a node ends with the nodes that the recursion gives, which are those
with the node on their way up, and the text of a container is put together from what its
children add. -/
structure WalksInOrder (document : Document) (id : NodeId) : Prop where
  visited : ∃ nodes, document.descendants id = .ok nodes ∧
    (∀ others, document.Preorder [id] others ↔ others = nodes) ∧
    ∀ below, below ∈ nodes ↔ ∃ way, document.ancestorsOrSelf below = .ok way ∧ id ∈ way
  apart : ∀ below ascent, document.ascent below = .ok ascent → ascent.endless →
    id ∉ ascent.nodes
  text : (document.content id = .ok .document ∨
      ∃ element, document.content id = .ok (.element element)) →
    ∃ children texts, document.children id = .ok children ∧
      children.mapM document.contribution = .ok texts ∧
      document.stringValue id = .ok (String.join texts)

section

variable {document : Document} {id : NodeId} {nodes : List NodeId}

/-! ## The recursion -/

theorem Preorder.unique {pending left right : List NodeId}
    (preorder : document.Preorder pending left)
    (other : document.Preorder pending right) :
    left = right := by
  induction preorder generalizing right with
  | done =>
      cases other
      rfl
  | next listed _ _ below others =>
      cases other with
      | next otherListed otherDown otherOn =>
          cases listed.symm.trans otherListed
          rw [below otherDown, others otherOn]

theorem AllEnd.preorder (linked : document.Linked) {pending : List NodeId}
    (ends : document.AllEnd pending) :
    document.Preorder pending (pending.flatMap document.subtree) := by
  -- By the number of nodes still to come: what is below the first of the pending nodes
  -- and what is below the others are fewer.
  induction size : (pending.flatMap document.subtree).length using Nat.strongRecOn
    generalizing pending with
  | _ size induction =>
      cases pending with
      | nil => exact .done
      | cons id rest =>
          rcases ends id (by simp) with ⟨inside, nodes, way⟩
          have childrenEnd : document.AllEnd (document.childLinks id) :=
            fun child member => ⟨linked.childInside member, _, way.child linked member⟩
          have restEnd : document.AllEnd rest := fun other member =>
            ends other (List.mem_cons_of_mem _ member)
          rw [List.flatMap_cons, subtree_eq linked way inside] at size ⊢
          simp only [List.cons_append, List.length_cons, List.length_append] at size
          apply Preorder.next (children_eq_childLinks inside)
          · exact induction _ (by omega) childrenEnd rfl
          · exact induction _ (by omega) restEnd rfl

theorem Way.preorder_iff (linked : document.Linked) (way : document.Way id nodes)
    (inside : id < document.size) {others : List NodeId} :
    document.Preorder [id] others ↔ others = document.subtree id := by
  have ends : document.AllEnd [id] := by
    intro other member
    rw [List.mem_singleton.mp member]
    exact ⟨inside, nodes, way⟩
  have preorder := ends.preorder linked
  rw [List.flatMap_singleton] at preorder
  constructor
  · exact fun other => other.unique preorder
  · rintro rfl
    exact preorder

/-! ## Above what is visited -/

theorem Way.mem_subtree_iff_exists_way (linked : document.Linked)
    (way : document.Way id nodes) (inside : id < document.size) {below : NodeId} :
    below ∈ document.subtree id ↔
      ∃ above, document.ancestorsOrSelf below = .ok above ∧ id ∈ above := by
  rw [mem_subtree_iff linked way inside]
  constructor
  · intro passes
    rcases way.of_passes passes with ⟨before, belowWay⟩
    have member := belowWay.mem_iff_passes.mpr passes
    have belowInside := inside_of_mem_preorder linked inside
      ((mem_subtree_iff linked way inside).mpr passes)
    exact ⟨_, (ancestorsOrSelf_eq_ok_iff linked).mpr ⟨belowInside, belowWay⟩, member⟩
  · rintro ⟨above, answered, member⟩
    rcases (ancestorsOrSelf_eq_ok_iff linked).mp answered with ⟨_, belowWay⟩
    exact belowWay.mem_iff_passes.mp member

theorem Way.not_mem_of_endless (linked : document.Linked) (way : document.Way id nodes)
    {below : NodeId} {ascent : Ascent} (climbed : document.ascent below = .ok ascent)
    (endless : ascent.endless) : id ∉ ascent.nodes := by
  intro member
  by_cases inside : below < document.size
  · rw [ascent_of_inside inside] at climbed
    have same := Except.ok.inj climbed
    rcases way.of_passes (passes_of_mem_climb (same ▸ member)) with ⟨before, belowWay⟩
    have finite := belowWay.ascent linked inside
    rw [ascent_of_inside inside, climbed] at finite
    rw [Except.ok.inj finite] at endless
    cases endless
  · simp [Document.ascent, node_of_none (nodes_eq_none_iff.mpr (Nat.le_of_not_lt inside))]
      at climbed

/-! ## The text of a container -/

def textAt? (document : Document) (id : NodeId) : Option String :=
  document.nodes[id]?.bind fun node =>
    match node.content with
    | .text text => some text
    | _ => none

def textBelow (document : Document) (id : NodeId) : String :=
  String.join ((document.subtree id).filterMap document.textAt?)

theorem textAt?_of {node : Node} (found : document.nodes[id]? = some node) :
    document.textAt? id = match node.content with
      | .text text => some text
      | _ => none := by
  rw [textAt?, found, Option.bind_some]

theorem ownText?_eq (inside : id < document.size) :
    document.ownText? id = .ok (document.textAt? id) := by
  rcases exists_node_iff.mpr inside with ⟨node, found⟩
  cases shape :
    node.content <;> simp [ownText?, content_of found, textAt?_of found, shape]

theorem join_flatMap {α : Type} (items : List α) (parts : α → List String) :
    String.join (items.flatMap parts) =
      String.join (items.map fun item => String.join (parts item)) := by
  induction items with
  | nil => rfl
  | cons item rest induction =>
      rw [List.flatMap_cons, String.join_append, induction, List.map_cons,
        String.join_cons]

theorem Way.textBelow_eq (linked : document.Linked) (way : document.Way id nodes)
    (inside : id < document.size) :
    document.textBelow id = String.join ((document.textAt? id).toList ++
      (document.childLinks id).map document.textBelow) := by
  have each : (fun child =>
      String.join ((document.subtree child).filterMap document.textAt?)) =
        document.textBelow := rfl
  rw [textBelow, subtree_eq linked way inside, List.filterMap_cons,
    List.filterMap_flatMap]
  cases document.textAt? id <;> simp [join_flatMap, each, String.join_cons]

theorem Way.stringValue_eq (linked : document.Linked) (way : document.Way id nodes)
    (container : document.content id = .ok .document ∨
      ∃ element, document.content id = .ok (.element element)) :
    document.stringValue id = .ok (document.textBelow id) := by
  have inside : id < document.size := by
    rcases container with held | ⟨_, held⟩ <;> exact lt_size_of_content held
  have texts : (document.subtree id).filterMapM document.ownText? =
      .ok ((document.subtree id).filterMap document.textAt?) := by
    apply Reading.filterMapM_eq_filterMap
    intro below member
    exact ownText?_eq (inside_of_mem_preorder linked inside member)
  rcases container with held | ⟨_, held⟩ <;>
    simp [Document.stringValue, held, descendants_eq_subtree linked way inside, texts,
      textBelow]

theorem Way.contribution_eq (linked : document.Linked) (way : document.Way id nodes)
    (inside : id < document.size) (below : id ≠ root) :
    document.contribution id = .ok (document.textBelow id) := by
  rcases exists_node_iff.mpr inside with ⟨node, found⟩
  have held := content_of found
  have text := way.textBelow_eq linked inside
  rw [textAt?_of found] at text
  have childless (leaf : ¬ node.content.IsContainer) : document.childLinks id = [] := by
    rw [childLinks_of found]
    by_contra some
    exact leaf (linked.host found some)
  cases shape : node.content with
  | document => exact absurd (linked.onlyTop found shape) below
  | element element =>
      rw [shape] at held
      simp [contribution, held, way.stringValue_eq linked (.inr ⟨element, held⟩)]
  | _ =>
      have none := childless (by simp [shape, Content.IsContainer])
      simp [contribution, held, shape, text, none, String.join_cons]

theorem Way.walksInOrder (linked : document.Linked) (way : document.Way id nodes)
    (inside : id < document.size) : document.WalksInOrder id := by
  refine ⟨⟨document.subtree id, ?answered, ?recursion, ?members⟩, ?apart, ?text⟩
  case answered => exact descendants_eq_subtree linked way inside
  case recursion => exact fun others => way.preorder_iff linked inside
  case members => exact fun below => way.mem_subtree_iff_exists_way linked inside
  case apart => exact fun below ascent => way.not_mem_of_endless linked
  case text =>
    intro container
    have added : (document.childLinks id).mapM document.contribution =
        .ok ((document.childLinks id).map document.textBelow) := by
      apply Reading.mapM_eq
      intro child member
      exact (way.child linked member).contribution_eq linked (linked.childInside member)
        (linked.childNotRoot member)
    have ownText : document.textAt? id = none := by
      rcases exists_node_iff.mpr inside with ⟨node, found⟩
      rw [content_of found] at container
      rcases container with held | ⟨element, held⟩ <;>
        rw [textAt?_of found, Except.ok.inj held]
    refine ⟨_, _, children_eq_childLinks inside, added, ?_⟩
    rw [way.stringValue_eq linked container, way.textBelow_eq linked inside, ownText]
    rfl

end

/-- Where the way up from a node ends, walking its subtree gives what the recursion on its
children gives. -/
theorem walksInOrder_of_ancestorsOrSelf {document : Document}
    (reachable : document.Reachable) {id : NodeId} {way : List NodeId}
    (ended : document.ancestorsOrSelf id = .ok way) : document.WalksInOrder id := by
  rcases (ancestorsOrSelf_eq_ok_iff reachable.linked).mp ended with ⟨inside, way⟩
  exact way.walksInOrder reachable.linked inside

def branching : List Operation :=
  [.appendElement 0 "outer", .newText "a", .appendChild 1 2, .appendElement 1 "inner",
    .newText "b", .newComment "c", .newInstruction "d" "e", .appendChild 3 6,
    .appendChild 3 4,
    .appendChild 3 5, .newText "f", .appendChild 1 7, .newElement "loop",
    .appendChild 8 8, .appendElement 8 "lost"]

theorem walksInOrder_of_ancestorsOrSelf_branching :
    ∃ document, after branching = some document ∧
      document.ancestorsOrSelf 1 = .ok [1, 0] ∧
      document.WalksInOrder 1 ∧ document.descendants 1 = .ok [1, 2, 3, 6, 4, 5, 7] ∧
      document.stringValue 1 = .ok "abf" ∧
      document.ancestorsOrSelf 9 = .error .endlessWalk :=
  ⟨_, rfl, rfl, walksInOrder_of_ancestorsOrSelf (@reachable_of_after branching _ rfl) rfl,
    rfl, rfl, rfl⟩

end ResultTree.Document
