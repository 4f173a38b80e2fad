import Mathlib.Data.List.Flatten
import ResultTree.Proofs.Document.Handles

namespace ResultTree.Document

/-! A tree by depth. The nodes at one depth stand in document order if they are listed
from left to right, and the next depth is made of their children in turn. -/

def generation (document : Document) : Nat → NodeId → List NodeId
  | 0, id => [id]
  | depth + 1, id => (document.childLinks id).flatMap (document.generation depth)

variable {document : Document} {id : NodeId} {nodes : List NodeId} {depth : Nat}

theorem generation_succ (depth : Nat) (id : NodeId) :
    document.generation (depth + 1) id =
      (document.generation depth id).flatMap document.childLinks := by
  induction depth generalizing id with
  | zero => simp [generation]
  | succ depth induction =>
      calc document.generation (depth + 2) id
          = (document.childLinks id).flatMap (document.generation (depth + 1)) := rfl
        _ = (document.childLinks id).flatMap fun child =>
              (document.generation depth child).flatMap document.childLinks := by
          rw [funext induction]
        _ = (document.generation (depth + 1) id).flatMap document.childLinks :=
          List.flatMap_assoc.symm

theorem generation_sublist_preorder {bound : Nat} (within : depth < bound) :
    (document.generation depth id).Sublist (document.preorder bound id) := by
  induction depth generalizing id bound with
  | zero =>
      cases bound with
      | zero => omega
      | succ bound =>
          apply List.Sublist.cons_cons
          exact List.nil_sublist _
  | succ depth induction =>
      cases bound with
      | zero => omega
      | succ bound =>
          apply List.Sublist.cons
          apply List.Sublist.flatMap_right
          exact fun child _ => induction (by omega)

theorem generation_sublist_subtree (linked : document.Linked)
    (way : document.Way id nodes) (inside : id < document.size) (depth : Nat) :
    (document.generation depth id).Sublist (document.subtree id) := by
  have enough : document.size < (document.size + depth + 1) + nodes.length := by omega
  rw [← preorder_eq_subtree linked way inside enough]
  exact generation_sublist_preorder (by omega)

theorem Linked.generation_sublist (linked : document.Linked) (depth : Nat) :
    (document.generation depth root).Sublist (document.subtree root) :=
  generation_sublist_subtree linked (.top linked.rootLoose) linked.rootInside depth

theorem Attached.exists_generation (linked : document.Linked)
    (attached : document.Attached id) :
    ∃ depth, id ∈ document.generation depth root := by
  induction attached using Relation.ReflTransGen.head_induction_on with
  | refl => exact ⟨0, by simp [generation]⟩
  | head link _ induction =>
      rcases induction with ⟨depth, member⟩
      refine ⟨depth + 1, ?_⟩
      rw [generation_succ]
      exact List.mem_flatMap.mpr ⟨_, member, linked.listed.mpr link⟩

end ResultTree.Document
