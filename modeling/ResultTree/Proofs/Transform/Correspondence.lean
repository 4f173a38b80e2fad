import ResultTree.Proofs.Document.Outline
import ResultTree.Proofs.Transform.Tree

namespace ResultTree

/-! Which node is the copy of which. Copies are told by their places: the copies of the
children of a node stand in the same order among the children of its copy, after those
that were there before. -/

/-- `copied` is the copy of `original`, if `copy` is that of `node`. -/
inductive Document.IsCopy (source before after : Document) (node copy : NodeId) :
    NodeId → NodeId → Prop
  | self : IsCopy source before after node copy node copy
  | child {original copied child childCopy : NodeId} {index : Nat}
      (parents : IsCopy source before after node copy original copied)
      (listed : (source.childLinks original)[index]? = some child)
      (copyListed :
        (after.childLinks copied)[(before.childLinks copied).length + index]? =
          some childCopy) :
      IsCopy source before after node copy child childCopy

namespace AliasTable

open Document

/-- A node is listed with its copy, or it is the document node, for which the parent
stands. -/
def Paired (source before : Document) (node parent original copy : NodeId) : Prop :=
  (node = root ∧ original = root ∧ copy = parent) ∨
    (original, copy) ∈ source.pairs before.size (source.grafted node)

variable {table : AliasTable} {source before after : Document}
  {parent node original copy : NodeId}

theorem allEnd_grafted (linked : source.Linked) (attached : source.Attached node) :
    source.AllEnd (source.grafted node) := by
  rcases attached.way linked with ⟨passed, way⟩
  unfold grafted
  split
  · exact allEnd_childLinks linked way
  · intro other member
    rw [List.mem_singleton.mp member]
    exact ⟨attached.inside linked, _, way⟩

theorem paired_self (linked : source.Linked) (attached : source.Attached node) :
    Paired source before node parent node
      (if node = root then parent else before.size) := by
  by_cases atRoot : node = root
  · exact .inl ⟨atRoot, atRoot, if_pos atRoot⟩
  · have numbered :=
      mem_numbered_pairs linked (allEnd_grafted linked attached) before.size
    rw [grafted, if_neg atRoot] at numbered
    rw [if_neg atRoot]
    cases numbered with
    | cons first _ => exact .inr (by rwa [grafted, if_neg atRoot])

theorem Paired.children (paired : Paired source before node parent original copy)
    (graft : table.Graft source before after parent (source.grafted node))
    (linked : source.Linked) (attached : source.Attached node)
    (inside : parent < before.size) :
    ∃ fresh, after.childLinks copy = before.childLinks copy ++ fresh ∧
      List.Forall₂ (Paired source before node parent) (source.childLinks original)
        fresh := by
  rcases paired with ⟨rfl, rfl, rfl⟩ | member
  · rcases exists_node_iff.mpr inside with ⟨host, found⟩
    have numbered :=
      mem_numbered_pairs linked (allEnd_grafted linked attached) before.size
    refine ⟨source.numbered before.size (source.childLinks root), ?_, ?_⟩
    · rw [childLinks_of (graft.old found), childLinks_of found]
      simp [grafted]
    · rw [grafted, if_pos rfl] at numbered
      exact numbered.imp fun _ _ member => .inr (by rwa [grafted, if_pos rfl])
  · have fresh : before.childLinks copy = [] := by
      simp [childLinks, nodes_eq_none_iff.mpr (mem_pairs_bounds member).1]
    refine ⟨after.childLinks copy, by rw [fresh, List.nil_append], ?_⟩
    exact (graft.copied member).children.imp fun _ _ member => .inr member

theorem Graft.paired_of_isCopy
    (graft : table.Graft source before after parent (source.grafted node))
    (linked : source.Linked) (attached : source.Attached node)
    (inside : parent < before.size)
    (isCopy :
      source.IsCopy before after node (if node = root then parent else before.size)
      original copy) : Paired source before node parent original copy := by
  induction isCopy with
  | self => exact paired_self linked attached
  | child _ listed copyListed induction =>
      rcases induction.children graft linked attached inside with ⟨fresh, appended, both⟩
      rw [appended, List.getElem?_append_right (Nat.le_add_right _ _),
        Nat.add_sub_cancel_left] at copyListed
      rcases exists_getElem?_right both listed with ⟨other, otherListed, paired⟩
      cases copyListed.symm.trans otherListed
      exact paired

theorem Graft.exists_isCopy
    (graft : table.Graft source before after parent (source.grafted node))
    (linked : source.Linked) (attached : source.Attached node)
    (inside : parent < before.size) (passes : source.Passes original node) :
    ∃ copy, source.IsCopy before after node (if node = root then parent else before.size)
      original copy := by
  induction passes using Relation.ReflTransGen.head_induction_on with
  | refl => exact ⟨_, .self⟩
  | @head child original link _ induction =>
      rcases induction with ⟨copy, isCopy⟩
      rcases (graft.paired_of_isCopy linked attached inside isCopy).children graft linked
        attached inside with ⟨fresh, appended, both⟩
      rcases List.mem_iff_getElem?.mp (linked.listed.mpr link) with ⟨index, listed⟩
      rcases exists_getElem?_right both listed with ⟨childCopy, copyListed, _⟩
      refine ⟨childCopy, .child isCopy listed ?_⟩
      rw [appended, List.getElem?_append_right (Nat.le_add_right _ _),
        Nat.add_sub_cancel_left, copyListed]

theorem attached_of_isCopy (linked : source.Linked) (attached : source.Attached node)
    {nodeCopy : NodeId}
    (isCopy : source.IsCopy before after node nodeCopy original copy) :
    source.Attached original := by
  induction isCopy with
  | self => exact attached
  | child _ listed _ induction =>
      exact induction.child linked (List.mem_of_getElem? listed)

theorem nodup_flatMap_subtree_grafted (linked : source.Linked)
    (attached : source.Attached node) :
    ((source.grafted node).flatMap source.subtree).Nodup := by
  rcases attached.way linked with ⟨_, way⟩
  have distinct : (source.subtree node).Nodup := nodup_preorder linked way _
  rw [flatMap_subtree_grafted linked attached]
  split
  · exact distinct.sublist (List.drop_sublist _ _)
  · exact distinct

theorem root_notMem_flatMap_subtree (linked : source.Linked)
    (attached : source.Attached root) :
    root ∉ (source.grafted root).flatMap source.subtree := by
  have way : source.Way root [root] := .top linked.rootLoose
  have distinct : (source.subtree root).Nodup := nodup_preorder linked way _
  rw [flatMap_subtree_grafted linked attached, if_pos rfl]
  rw [subtree_eq linked way (attached.inside linked)] at distinct ⊢
  exact (List.nodup_cons.mp distinct).1

theorem Paired.eq_of_mem_pairs (paired : Paired source before node parent original copy)
    (linked : source.Linked) (attached : source.Attached node) {other : NodeId}
    (listed : (original, other) ∈ source.pairs before.size (source.grafted node)) :
    copy = other := by
  rcases paired with ⟨rfl, rfl, rfl⟩ | member
  · exact absurd (List.fst_mem_of_mem_zipIdx listed)
      (root_notMem_flatMap_subtree linked attached)
  · have distinct := nodup_flatMap_subtree_grafted linked attached
    rcases List.mem_zipIdx_iff_le_and_getElem?_sub.mp member with ⟨lower, first⟩
    rcases List.mem_zipIdx_iff_le_and_getElem?_sub.mp listed with ⟨otherLower, second⟩
    have inside := (List.getElem?_eq_some_iff.mp first).1
    have same := (List.getElem?_inj inside distinct).mp (first.trans second.symm)
    calc copy = copy - before.size + before.size := (Nat.sub_add_cancel lower).symm
      _ = other - before.size + before.size := congrArg (· + before.size) same
      _ = other := Nat.sub_add_cancel otherLower

/-- Every new node is the copy of a node that is copied. -/
theorem Graft.exists_original
    (graft : table.Graft source before after parent (source.grafted node))
    (linked : source.Linked) (attached : source.Attached node)
    (inside : parent < before.size) {copy : Nat} (new : before.size ≤ copy)
    (made : copy < after.size) :
    ∃ original, source.Passes original node ∧
      source.IsCopy before after node (if node = root then parent else before.size)
        original copy ∧
      table.StandsFor source after original copy := by
  have size := graft.size
  have bound : copy - before.size <
      ((source.grafted node).flatMap source.subtree).length := by omega
  have listed :
      (((source.grafted node).flatMap source.subtree)[copy - before.size],
        copy) ∈ source.pairs before.size (source.grafted node) :=
    List.mem_zipIdx_iff_le_and_getElem?_sub.mpr ⟨new, List.getElem?_eq_getElem bound⟩
  have passes := passes_of_mem_grafted linked (List.getElem_mem bound)
  rcases graft.exists_isCopy linked attached inside passes with ⟨other, isCopy⟩
  have same :=
    (graft.paired_of_isCopy linked attached inside isCopy).eq_of_mem_pairs linked
      attached listed
  exact ⟨_, passes, same ▸ isCopy, (graft.copied listed).content⟩

theorem Graft.standsFor
    (graft : table.Graft source before after parent (source.grafted node))
    (linked : source.Linked) (attached : source.Attached node)
    (inside : parent < before.size)
    (isCopy :
      source.IsCopy before after node (if node = root then parent else before.size)
      original copy) {held : Element}
    (holds : source.content original = .ok (.element held)) :
    table.StandsFor source after original copy := by
  rcases graft.paired_of_isCopy linked attached inside isCopy with ⟨_, rfl, _⟩ | member
  · rcases linked.top with ⟨top, found, shape, _⟩
    rw [content_of found, shape] at holds
    cases holds
  · exact (graft.copied member).content

end AliasTable

end ResultTree
