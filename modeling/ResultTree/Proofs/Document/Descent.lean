import Mathlib.Data.List.Nodup
import ResultTree.Proofs.Document.Ascent

namespace ResultTree.Document

/-! What is below a node, by recursion on the children. Where the way up from a
node ends, the way up from everything below it passes the node, so that no two
children have anything below them in common and the recursion visits each node
once. Walking with a list of pending nodes visits the same nodes in the same
order. -/

/-- A node and what is below it, down to a depth, each node before its children. -/
def preorder (document : Document) : Nat → NodeId → List NodeId
  | 0, _ => []
  | depth + 1, id => id :: (document.childLinks id).flatMap (document.preorder depth)

def subtree (document : Document) (id : NodeId) : List NodeId :=
  document.preorder document.size id

section

variable {document : Document} {id : NodeId} {nodes : List NodeId}

theorem Way.child (linked : document.Linked) (way : document.Way id nodes)
    {child : NodeId} (member : child ∈ document.childLinks id) :
    document.Way child (child :: nodes) :=
  .up (linked.listed.mp member) way

theorem Way.of_passes {passed : NodeId} (passes : document.Passes id passed)
    (way : document.Way passed nodes) : ∃ before, document.Way id (before ++ nodes) := by
  induction passes using Relation.ReflTransGen.head_induction_on with
  | refl => exact ⟨[], way⟩
  | @head lower _ link _ induction =>
      rcases induction with ⟨before, upper⟩
      exact ⟨lower :: before, .up link upper⟩

/-! ## What the recursion visits -/

theorem passes_of_mem_preorder (linked : document.Linked) {depth : Nat} {below : NodeId}
    (member : below ∈ document.preorder depth id) : document.Passes below id := by
  induction depth generalizing id with
  | zero => simp [preorder] at member
  | succ depth induction =>
      simp only [preorder, List.mem_cons, List.mem_flatMap] at member
      rcases member with same | ⟨child, childMember, member⟩
      · subst same
        exact .refl
      · exact (induction member).tail (linked.listed.mp childMember)

theorem inside_of_mem_preorder (linked : document.Linked) (inside : id < document.size)
    {depth : Nat} {below : NodeId} (member : below ∈ document.preorder depth id) :
    below < document.size := by
  induction depth generalizing id with
  | zero => simp [preorder] at member
  | succ depth induction =>
      simp only [preorder, List.mem_cons, List.mem_flatMap] at member
      rcases member with same | ⟨child, childMember, member⟩
      · exact same ▸ inside
      · exact induction (linked.childInside childMember) member

theorem nodup_preorder (linked : document.Linked) (way : document.Way id nodes)
    (depth : Nat) :
    (document.preorder depth id).Nodup := by
  induction depth generalizing id nodes with
  | zero => exact .nil
  | succ depth induction =>
      refine List.nodup_cons.mpr ⟨?notBelow, List.nodup_flatMap.mpr ⟨?each, ?apart⟩⟩
      case notBelow =>
        intro member
        rcases List.mem_flatMap.mp member with ⟨child, childMember, member⟩
        have onWay := way.mem_iff_passes.mpr (passes_of_mem_preorder linked member)
        exact (List.nodup_cons.mp (way.child linked childMember).nodup).1 onWay
      case each => exact fun child member => induction (way.child linked member)
      case apart =>
        apply List.Nodup.pairwise_of_forall_ne (linked.once id)
        intro left leftMember right rightMember different below inLeft inRight
        -- The way up from a common node passes both children at the same place.
        rcases (way.child linked leftMember).of_passes
          (passes_of_mem_preorder linked inLeft) with ⟨beforeLeft, throughLeft⟩
        rcases (way.child linked rightMember).of_passes
          (passes_of_mem_preorder linked inRight) with ⟨beforeRight, throughRight⟩
        have same := throughLeft.unique throughRight
        have lengths := congrArg List.length same
        simp only [List.length_append, List.length_cons] at lengths
        have tails := (List.append_inj same (by omega)).2
        exact different (List.cons.inj tails).1

/-! ## Depth enough -/

/-- No way is longer than the document, so at the end of what the way leaves of its
size there are no children. -/
theorem preorder_eq_of_enough (linked : document.Linked) (way : document.Way id nodes)
    (inside : id < document.size) {depth other : Nat}
    (enough : document.size < depth + nodes.length)
    (otherEnough : document.size < other + nodes.length) :
    document.preorder depth id = document.preorder other id := by
  have bound := way.length_le_size linked inside
  induction depth generalizing id nodes other with
  | zero => omega
  | succ depth induction =>
      cases other with
      | zero => omega
      | succ other =>
          simp only [preorder, List.cons.injEq, true_and]
          apply List.flatMap_congr
          intro child member
          have childWay := way.child linked member
          have childInside := linked.childInside member
          refine induction childWay childInside ?_ ?_
            (childWay.length_le_size linked childInside) <;>
            simp only [List.length_cons] <;> omega

theorem preorder_eq_subtree (linked : document.Linked) (way : document.Way id nodes)
    (inside : id < document.size) {depth : Nat}
    (enough : document.size < depth + nodes.length) :
    document.preorder depth id = document.subtree id :=
  preorder_eq_of_enough linked way inside enough
    (Nat.lt_add_of_pos_right way.length_pos)

theorem subtree_eq (linked : document.Linked) (way : document.Way id nodes)
    (inside : id < document.size) :
    document.subtree id = id :: (document.childLinks id).flatMap document.subtree := by
  have enough : document.size < document.size + 1 + nodes.length := by omega
  rw [← preorder_eq_subtree linked way inside enough]
  rfl

theorem mem_subtree_iff (linked : document.Linked) (way : document.Way id nodes)
    (inside : id < document.size) {below : NodeId} :
    below ∈ document.subtree id ↔ document.Passes below id := by
  refine ⟨passes_of_mem_preorder linked, fun passes => ?_⟩
  induction passes generalizing nodes with
  | refl =>
      rw [subtree_eq linked way inside]
      exact List.mem_cons_self
  | @tail child id _ link induction =>
      have member := linked.listed.mpr link
      rw [subtree_eq linked way inside]
      exact List.mem_cons_of_mem _ (List.mem_flatMap.mpr
        ⟨child, member, induction (way.child linked member) (linked.childInside member)⟩)

theorem length_subtree_le_size (linked : document.Linked) (way : document.Way id nodes)
    (inside : id < document.size) : (document.subtree id).length ≤ document.size := by
  have subset : document.subtree id ⊆ List.range document.size := fun below member =>
    List.mem_range.mpr (inside_of_mem_preorder linked inside member)
  have bound := (List.subperm_of_subset (nodup_preorder linked way _) subset).length_le
  rwa [List.length_range] at bound

/-! ## The walk with pending nodes -/

def AllEnd (document : Document) (pending : List NodeId) : Prop :=
  ∀ id ∈ pending, id < document.size ∧ ∃ nodes, document.Way id nodes

theorem visit_eq_flatMap_subtree (linked : document.Linked) {visits : Nat}
    {pending : List NodeId} (ends : document.AllEnd pending)
    (enough : (pending.flatMap document.subtree).length ≤ visits) :
    document.visit visits pending = .ok (pending.flatMap document.subtree) := by
  induction visits generalizing pending with
  | zero =>
      cases pending with
      | nil => rfl
      | cons id rest =>
          rcases ends id (by simp) with ⟨inside, nodes, way⟩
          simp [subtree_eq linked way inside] at enough
  | succ visits induction =>
      cases pending with
      | nil => rfl
      | cons id rest =>
          rcases ends id (by simp) with ⟨inside, nodes, way⟩
          have below : ((document.childLinks id ++ rest).flatMap document.subtree).length
              ≤ visits := by
            rw [List.flatMap_cons, subtree_eq linked way inside] at enough
            simpa [List.flatMap_append] using enough
          have belowEnds : document.AllEnd (document.childLinks id ++ rest) := by
            intro other member
            rcases List.mem_append.mp member with member | member
            · exact ⟨linked.childInside member, _, way.child linked member⟩
            · exact ends other (List.mem_cons_of_mem _ member)
          simp only [visit, children_eq_childLinks inside, Reading.ok_bind,
            induction belowEnds below]
          simp [subtree_eq linked way inside, List.flatMap_append]

theorem descendants_eq_subtree (linked : document.Linked) (way : document.Way id nodes)
    (inside : id < document.size) :
    document.descendants id = .ok (document.subtree id) := by
  have ends : document.AllEnd [id] := by
    intro other member
    rw [List.mem_singleton.mp member]
    exact ⟨inside, nodes, way⟩
  have enough : ([id].flatMap document.subtree).length ≤ document.size := by
    simpa using length_subtree_le_size linked way inside
  rw [descendants, visit_eq_flatMap_subtree linked ends enough, List.flatMap_singleton]

end

end ResultTree.Document
