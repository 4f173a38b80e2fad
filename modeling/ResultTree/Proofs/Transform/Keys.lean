import ResultTree.Proofs.Builder.Numbering
import ResultTree.Proofs.Key.Listing
import ResultTree.Proofs.Key.Resemblance
import ResultTree.Proofs.Transform.DeepCopy
import ResultTree.Proofs.Transform.Identity

namespace ResultTree

/-! A document whose nodes are in document order keeps its addresses when it is copied to
an empty result, since copies are numbered in document order too. Without aliases the
copy resembles the source, and then it has the same keys. -/

theorem Document.InOrder.allKnown {source : Document} (order : source.InOrder)
    (linked : source.Linked) (consistent : source.Consistent) : source.AllKnown := by
  intro id element held
  have attached := order.attached linked (lt_size_of_content held)
  exact (consistent id element attached held).named.known

namespace AliasTable

open Document

variable {source after : Document} {id : NodeId}

theorem mem_pairs_root_iff (linked : source.Linked) (order : source.InOrder)
    {original copy : NodeId} :
    (original, copy) ∈ source.pairs 1 (source.childLinks root) ↔
      copy = original ∧ original ≠ root ∧ original < source.size := by
  rw [mem_pairs_iff, order.flatMap_subtree_root linked, CopyAt]
  simp only [List.getElem?_drop, List.getElem?_eq_some_iff, List.length_range,
    List.getElem_range]
  constructor
  · rintro ⟨index, ⟨inside, rfl⟩, rfl⟩
    exact ⟨rfl, Nat.ne_of_gt (Nat.lt_add_right _ Nat.one_pos), inside⟩
  · rintro ⟨rfl, notRoot, inside⟩
    have split := Nat.add_sub_cancel' (Nat.one_le_iff_ne_zero.mpr notRoot)
    exact ⟨copy - 1, ⟨split.symm ▸ inside, split⟩, split.symm⟩

theorem isCopy_iff (linked : source.Linked) (order : source.InOrder)
    (graft : AliasTable.empty.Graft source .empty after root (source.childLinks root))
    {original copy : NodeId} :
    source.IsCopy .empty after root root original copy ↔
      original < source.size ∧ copy = original := by
  have isSelf {original copy : NodeId}
      (isCopy : source.IsCopy .empty after root root original copy) :
      copy = original := by
    rcases Graft.paired_of_isCopy graft linked attached_root Linked.empty.rootInside
      isCopy with
      ⟨_, rfl, rfl⟩ | member
    · rfl
    · exact ((mem_pairs_root_iff linked order).mp member).1
  constructor
  · intro isCopy
    exact ⟨(attached_of_isCopy linked attached_root isCopy).inside linked, isSelf isCopy⟩
  · rintro ⟨inside, rfl⟩
    rcases Graft.exists_isCopy graft linked attached_root Linked.empty.rootInside
      (order.attached linked inside) with ⟨other, isCopy⟩
    exact isSelf isCopy ▸ isCopy

section

variable (linked : source.Linked) (orderly : source.AllOrderly) (order : source.InOrder)
  (consistent : source.Consistent)
  (graft : AliasTable.empty.Graft source .empty after root (source.childLinks root))

include linked orderly order consistent graft

theorem mirrors_self (attached : source.Attached id) :
    source.Mirrors after (source.pairs 1 (source.childLinks root)) id id ∧
      after.childLinks id = source.childLinks id := by
  have afterLinked := graft.changes.linked .empty
  have afterOrderly := Changes.holds graft.changes AllOrderly.empty AllOrderly.kept
  have sameChildren {id : NodeId}
      (mirrors : source.Mirrors after (source.pairs 1 (source.childLinks root)) id id) :
      after.childLinks id = source.childLinks id := by
    have both : List.Forall₂ (· = ·) (source.childLinks id) (after.childLinks id) :=
      mirrors.children.imp fun _ _ paired =>
        ((mem_pairs_root_iff linked order).mp paired).1.symm
    rw [List.forall₂_eq_eq_eq] at both
    exact both.symm
  induction attached using Relation.ReflTransGen.head_induction_on with
  | refl =>
      have mirrors := Graft.mirrors_root linked graft
      exact ⟨mirrors, sameChildren mirrors⟩
  | @head child parent link attached induction =>
      have member := linked.listed.mpr link
      have paired := (mem_pairs_root_iff linked order).mpr
        ⟨rfl, linked.childNotRoot member, linked.childInside member⟩
      have mirrors :=
        mirrors_child linked orderly consistent afterLinked afterOrderly graft.copied
          attached induction.1 member (induction.2 ▸ member) paired
      exact ⟨mirrors, sameChildren mirrors⟩

theorem resembles_copy : source.Resembles after := by
  have afterLinked := graft.changes.linked .empty
  have size : source.size = after.size := by
    rw [graft.size, order.flatMap_subtree_root linked, List.length_drop,
      List.length_range]
    exact (Nat.add_sub_cancel' linked.rootInside).symm
  have children (id : NodeId) : source.childLinks id = after.childLinks id := by
    rcases Nat.lt_or_ge id source.size with inside | outside
    · exact (mirrors_self linked orderly order consistent graft
        (order.attached linked inside)).2.symm
    · simp [childLinks, nodes_eq_none_iff.mpr outside,
        nodes_eq_none_iff.mpr (size ▸ outside)]
  refine ⟨size, fun id => Option.ext fun parent => ?_, children, fun id inside => ?_⟩
  · rw [← linked.listed, ← afterLinked.listed, children]
  · exact (mirrors_self linked orderly order consistent graft
      (order.attached linked inside)).1.content

end

end AliasTable

/-- Without a stylesheet, all that is written is copied to the same addresses, and every
key lists the same nodes. -/
theorem Run.build_index_copyTree {events : List Builder.Event} {source : Document}
    (built : (Document.build events).run = .ok (.ok source))
    (consistent : source.Consistent) :
    ∃ run, (Run.start {} source).copyTree Document.root Document.root =
        .ok (.ok Document.root, run) ∧
      run.finish.size = source.size ∧
      (∀ original copy,
        source.IsCopy .empty run.finish Document.root Document.root original copy ↔
          original < source.size ∧ copy = original) ∧
      ∀ definitions, ∃ index, Key.Index.build definitions source = .ok index ∧
        Key.Index.build definitions run.finish = .ok index := by
  rcases Builder.inOrder_of_build built with ⟨linked, orderly, order⟩
  have hosts : Document.empty.Hosts Document.root := ⟨_, rfl, trivial⟩
  rcases AliasTable.grafts_copyTree .empty linked orderly consistent
    Document.attached_root Document.Linked.empty hosts (.top rfl) with
    ⟨after, outcome, graft⟩
  have alike := AliasTable.resembles_copy linked orderly order consistent graft
  refine ⟨_, edit_of outcome, alike.size.symm, fun original copy =>
    AliasTable.isCopy_iff linked order graft, fun definitions => ?_⟩
  rcases Key.Index.exists_build linked (order.allKnown linked consistent) definitions with
    ⟨index, answered, _⟩
  exact ⟨index, answered, Key.Index.build_eq alike definitions ▸ answered⟩

def Run.glossary : List Builder.Event :=
  [.start "g:glossary", .declare (some "g") "urn:g", .start "g:term",
    .declare (some "h") "urn:g",
    .attr "h:id" "a", .attr "kind" "noun", .line 3, .text "alpha", .close, .comment "end",
    .leaf "plain"]

theorem Run.build_index_copyTree_glossary :
    ∃ source, (Document.build glossary).run = .ok (.ok source) ∧
      ∃ run, (Run.start {} source).copyTree Document.root Document.root =
          .ok (.ok Document.root, run) ∧
        run.finish.size = source.size ∧
        (∀ original copy,
          source.IsCopy .empty run.finish Document.root Document.root original copy ↔
            original < source.size ∧ copy = original) ∧
        ∀ definitions, ∃ index, Key.Index.build definitions source = .ok index ∧
          Key.Index.build definitions run.finish = .ok index := by
  have made : ∃ source, (Document.build glossary).run = .ok (.ok source) ∧
      source.Consistent :=
    ⟨_, rfl, Document.consistent_of_all (by decide)⟩
  rcases made with ⟨source, built, consistent⟩
  exact ⟨source, built, build_index_copyTree built consistent⟩

end ResultTree
