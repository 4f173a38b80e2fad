import ResultTree.Proofs.Document.Handles
import ResultTree.Proofs.Transform.Graft
import ResultTree.Transform.Run

namespace ResultTree

/-! Copying nodes of a source whose handles are known always has an answer. The copy of
the document node is the parent itself, so that copying a whole document copies the
children of its document node. -/

namespace Document

/-- The nodes that get copies at the parent when a node is copied with all that is
below it. -/
def grafted (source : Document) (node : NodeId) : List NodeId :=
  if node = root then source.childLinks node else [node]

variable {source : Document} {node : NodeId}

theorem passes_of_mem_grafted (linked : source.Linked) {below : NodeId}
    (member : below ∈ (source.grafted node).flatMap source.subtree) :
    source.Passes below node := by
  rcases List.mem_flatMap.mp member with ⟨top, topMember, member⟩
  apply (passes_of_mem_preorder linked member).trans
  unfold grafted at topMember
  split at topMember
  · exact .single (linked.listed.mp topMember)
  · rw [List.mem_singleton.mp topMember]

theorem flatMap_subtree_grafted (linked : source.Linked)
    (attached : source.Attached node) :
    (source.grafted node).flatMap source.subtree =
      if node = root then (source.subtree node).drop 1 else source.subtree node := by
  rcases attached.way linked with ⟨_, way⟩
  by_cases atRoot : node = root
  · rw [grafted, if_pos atRoot, if_pos atRoot,
      subtree_eq linked way (attached.inside linked)]
    rfl
  · rw [grafted, if_neg atRoot, if_neg atRoot, List.flatMap_singleton]

theorem AllKnown.knownBelow (known : source.AllKnown) :
    AliasTable.KnownBelow source node :=
  fun below _ => known below

theorem Consistent.knownBelow (consistent : source.Consistent) (linked : source.Linked)
    (attached : source.Attached node) : AliasTable.KnownBelow source node := by
  intro below member element held
  have belowAttached : source.Attached below :=
    (passes_of_mem_preorder linked member).trans attached
  exact (consistent below element belowAttached held).named.known

end Document

namespace AliasTable

variable {table : AliasTable} {source before after : Document} {parent node : NodeId}
  {nodes : List NodeId}

theorem grafts_copyTree_of_known (table : AliasTable) (linked : source.Linked)
    (orderly : source.AllOrderly) (known : KnownBelow source node)
    (attached : source.Attached node) :
    table.Grafts source (table.copyTree source node parent)
      (fun before => if node = Document.root then parent else before.size) parent
      (source.grafted node) := by
  rcases attached.way linked with ⟨passed, way⟩
  have inside := attached.inside linked
  rcases eq_or_ne node Document.root with atRoot | notRoot
  · subst atRoot
    have rootWay : source.Way Document.root [Document.root] := .top linked.rootLoose
    rcases Nat.exists_eq_succ_of_ne_zero (Nat.ne_zero_of_lt inside) with ⟨depth, enough⟩
    have held : source.content Document.root = .ok .document := by
      rcases linked.top with ⟨top, found, shape, _⟩
      exact Document.content_eq_ok_iff.mpr ⟨top, found, shape⟩
    have each : ∀ child ∈ source.childLinks Document.root,
        table.Grafts source (do let _ ← table.copyWithin source depth child parent)
          (fun _ => ()) parent [child] := by
      intro child member
      have childEnough : source.size < depth + [child, Document.root].length := by
        simp [enough]
      exact (grafts_copyWithin table linked orderly (rootWay.child linked member)
        (linked.childInside member) (linked.childNotRoot member)
        (known.child linked rootWay inside member)
        childEnough).drop
    intro before nodes beforeLinked hosts parentWay
    rcases Grafts.forM each beforeLinked hosts parentWay with
      ⟨after, result, graft⟩
    have copied : Edit.outcome (table.copyNode source Document.root parent) before =
        (.ok (.ok parent), before) := by
      rw [copyNode, Edit.bind_read_of held]
      rfl
    refine ⟨after, ?_, by simpa [Document.grafted] using graft⟩
    rw [copyTree, enough, copyWithin, Edit.outcome_bind_of copied,
      Edit.bind_read_of (Document.children_eq_childLinks inside),
      Edit.outcome_bind_of result]
    simp
  · simp only [Document.grafted, notRoot, if_false]
    exact grafts_copyWithin table linked orderly way inside notRoot known
      (Nat.lt_add_of_pos_right way.length_pos)

theorem grafts_copyTree (table : AliasTable) (linked : source.Linked)
    (orderly : source.AllOrderly) (consistent : source.Consistent)
    (attached : source.Attached node) :
    table.Grafts source (table.copyTree source node parent)
      (fun before => if node = Document.root then parent else before.size) parent
      (source.grafted node) :=
  grafts_copyTree_of_known table linked orderly (consistent.knownBelow linked attached)
    attached

theorem standsFor_copyNode_of_known (table : AliasTable) (orderly : source.AllOrderly)
    {content : Content} (held : source.content node = .ok content)
    (known : ∀ element, content = .element element → source.Known element)
    (notDocument : content ≠ .document) (beforeLinked : before.Linked)
    (hosts : before.Hosts parent) (way : before.Way parent nodes) :
    ∃ after, Edit.outcome (table.copyNode source node parent) before =
        (.ok (.ok before.size), after) ∧
      before.Changes after ∧ after.size = before.size + 1 ∧
      table.StandsFor source after node before.size := by
  rcases outcome_copyNode table beforeLinked hosts way held notDocument
    (fun element same => orderly node element (same ▸ held)) known with
    ⟨copied, copies, changes, result⟩
  rcases Document.content_eq_ok_iff.mp held with ⟨original, found, rfl⟩
  refine ⟨_, result, changes, Document.size_appended, original, _, nodes, found,
    Document.nodes_appended_new, way.appended beforeLinked hosts.inside, ?_⟩
  rw [way.declared_appended beforeLinked hosts.inside]
  exact copies

theorem standsFor_copyNode (table : AliasTable) (orderly : source.AllOrderly)
    (named : source.WellNamed) (attached : source.Attached node) {content : Content}
    (held : source.content node = .ok content) (notDocument : content ≠ .document)
    (beforeLinked : before.Linked) (hosts : before.Hosts parent)
    (way : before.Way parent nodes) :
    ∃ after, Edit.outcome (table.copyNode source node parent) before =
        (.ok (.ok before.size), after) ∧
      before.Changes after ∧ after.size = before.size + 1 ∧
      table.StandsFor source after node before.size :=
  standsFor_copyNode_of_known table orderly held
    (fun element same => (named node element attached (same ▸ held)).known) notDocument
    beforeLinked hosts way

/-- Copying an attached node adds at most one node, its copy. -/
theorem copyNode_adds (table : AliasTable) (linked : source.Linked)
    (orderly : source.AllOrderly) (consistent : source.Consistent)
    (attached : source.Attached node) (beforeLinked : before.Linked)
    (hosts : before.Hosts parent) (way : before.Way parent nodes) :
    ∃ answer after, Edit.outcome (table.copyNode source node parent) before =
        (.ok (.ok answer), after) ∧
      before.Changes after ∧
      ∀ {copy : Nat}, before.size ≤ copy → copy < after.size →
        copy = answer ∧ table.StandsFor source after node copy := by
  rcases Document.exists_node_iff.mpr (attached.inside linked) with ⟨original, found⟩
  have held := Document.content_of found
  by_cases isDocument : original.content = .document
  · refine ⟨parent, before, ?_, .refl,
      fun lower upper => absurd upper (Nat.not_lt_of_le lower)⟩
    rw [copyNode, Edit.bind_read_of held, isDocument]
    rfl
  · rcases standsFor_copyNode table orderly consistent.wellNamed attached held isDocument
      beforeLinked hosts way with ⟨after, result, changes, size, stands⟩
    refine ⟨before.size, after, result, changes, fun {copy} lower upper => ?_⟩
    have new : copy = before.size := by omega
    exact ⟨new, new ▸ stands⟩

end AliasTable

theorem Run.edit_of {run : Run} {α : Type} {edit : Edit α} {answer : Except Refusal α}
    {result : Document} (outcome : Edit.outcome edit run.result = (.ok answer, result)) :
    run.edit edit = .ok (answer, { run with result }) := by
  simp [Run.edit, Edit.on_of outcome]

end ResultTree
