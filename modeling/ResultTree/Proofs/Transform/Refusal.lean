import ResultTree.Proofs.Document.Interlinking
import ResultTree.Proofs.Transform.DeepCopy

namespace ResultTree

/-! Copying is refused at once or not at all. A parent that can have no children refuses
the first node that is to be appended to it, which stays behind detached. Where that node
is appended, nothing that is done to it later on is refused, and neither is anything
below it. -/

namespace Edit

open Document

variable {α β : Type} {edit : Edit α} {document changed : Document} {refusal : Refusal}

theorem outcome_bind_of_refused (next : α → Edit β)
    (first : outcome edit document = (.ok (.error refusal), changed)) :
    outcome (edit >>= next) document = (.ok (.error refusal), changed) := by
  rw [outcome_bind, first]

theorem outcome_forM_of_refused {edit : α → Edit Unit} {first : α} (rest : List α)
    (refused : outcome (edit first) document = (.ok (.error refusal), changed)) :
    outcome ((first :: rest).forM edit) document = (.ok (.error refusal), changed) :=
  outcome_bind_of_refused _ refused

theorem outcome_appendChild_of_childless {parent child : NodeId} {node : Node}
    (found : document.nodes[parent]? = some node)
    (childless : ¬ node.content.IsContainer) :
    outcome (appendChild parent child) document =
      (.ok (.error (.notAContainer parent)), document) := by
  rw [appendChild, bind_get, bind_read_of (content_of found)]
  cases shape : node.content <;> simp [shape, Content.IsContainer] at childless <;> rfl

end Edit

namespace Document

structure GainsLoose (before after : Document) : Prop where
  size : after.size = before.size + 1
  old : ∀ id < before.size, after.nodes[id]? = before.nodes[id]?
  loose : after.parent before.size = .ok none
  childless : after.children before.size = .ok []
  unlisted : ∀ {id : NodeId} {children : List NodeId}, after.children id = .ok children →
    before.size ∉ children

variable {document : Document} {parent : NodeId} {node : Node}

theorem Linked.gainsLoose_allocate (linked : document.Linked) (content : Content) :
    document.GainsLoose (document.allocate content) := by
  have new : (document.allocate content).nodes[document.size]? = some { content } := by
    simp [nodes_allocate]
  refine ⟨size_allocate content, fun id old => ?_, parent_of new, children_of new, ?_⟩
  · rw [nodes_allocate, if_neg (Nat.ne_of_lt old)]
  · intro id children answered member
    have listed : document.size ∈ document.childLinks id := by
      rw [← @childLinks_allocate document id content]
      exact (children_eq_ok_iff.mp answered).2 ▸ member
    exact Nat.lt_irrefl _ (linked.childInside listed)

end Document

namespace AliasTable

open Document Edit

variable {source before : Document} {parent node : NodeId} {host : Node}

theorem outcome_appendNew_childless (found : before.nodes[parent]? = some host)
    (childless : ¬ host.content.IsContainer) (content : Content) :
    outcome (appendNew parent (Edit.allocate content)) before =
      (.ok (.error (.notAContainer parent)), before.allocate content) := by
  have kept : (before.allocate content).nodes[parent]? = some host := by
    rw [nodes_allocate, if_neg (Nat.ne_of_lt (lt_size_of_node found)), found]
  rw [appendNew, outcome_bind_of (outcome_allocate content before)]
  exact outcome_bind_of_refused _ (outcome_appendChild_of_childless kept childless)

theorem outcome_copyNode_childless (table : AliasTable)
    (found : before.nodes[parent]? = some host) (childless : ¬ host.content.IsContainer)
    {content : Content} (held : source.content node = .ok content)
    (notDocument : content ≠ .document) :
    ∃ left : Content, left.IsFresh ∧ outcome (table.copyNode source node parent) before =
      (.ok (.error (.notAContainer parent)), before.allocate left) := by
  rw [copyNode, bind_read_of held]
  cases content with
  | document => exact absurd rfl notDocument
  | element element =>
      exact ⟨_, Content.isFresh_element element.name, outcome_bind_of_refused _
        (outcome_appendNew_childless found childless (.element { name := element.name }))⟩
  | text text =>
      exact ⟨.text text, trivial, outcome_appendNew_childless found childless _⟩
  | comment text =>
      exact ⟨.comment text, trivial, outcome_appendNew_childless found childless _⟩
  | instruction target data =>
      exact ⟨.instruction target data, trivial,
        outcome_appendNew_childless found childless _⟩

theorem outcome_copyWithin_childless (table : AliasTable) (linked : source.Linked)
    (found : before.nodes[parent]? = some host) (childless : ¬ host.content.IsContainer)
    {depth : Nat} (deep : depth ≠ 0) (inside : node < source.size)
    (notRoot : node ≠ root) :
    ∃ left, outcome (table.copyWithin source depth node parent) before =
      (.ok (.error (.notAContainer parent)), before.allocate left) := by
  rcases exists_node_iff.mpr inside with ⟨original, originalFound⟩
  have notDocument : original.content ≠ .document := fun same =>
    notRoot (linked.onlyTop originalFound same)
  rcases outcome_copyNode_childless table found childless (content_of originalFound)
    notDocument with ⟨left, _, refused⟩
  cases depth with
  | zero => exact absurd rfl deep
  | succ depth => exact ⟨left, outcome_bind_of_refused _ refused⟩

theorem outcome_copyNode_root (table : AliasTable) (linked : source.Linked) :
    outcome (table.copyNode source root parent) before = (.ok (.ok parent), before) := by
  rcases linked.top with ⟨top, found, shape, _⟩
  rw [copyNode, bind_read_of (content_of found), shape]
  rfl

theorem outcome_copyRoot_childless (table : AliasTable) (linked : source.Linked)
    (found : before.nodes[parent]? = some host) (childless : ¬ host.content.IsContainer) :
    (source.childLinks root = [] ∧
        outcome (table.copyTree source root parent) before = (.ok (.ok parent), before)) ∨
      (source.childLinks root ≠ [] ∧
        ∃ left, outcome (table.copyTree source root parent) before =
          (.ok (.error (.notAContainer parent)), before.allocate left)) := by
  rcases Nat.exists_eq_succ_of_ne_zero (Nat.ne_zero_of_lt linked.rootInside) with
    ⟨depth, enough⟩
  rw [copyTree, enough, copyWithin, outcome_bind_of (outcome_copyNode_root table linked),
    bind_read_of (children_eq_childLinks linked.rootInside)]
  cases children : source.childLinks root with
  | nil => exact .inl ⟨rfl, rfl⟩
  | cons first rest =>
      have member : first ∈ source.childLinks root := by simp [children]
      have firstInside := linked.childInside member
      have notRoot := linked.childNotRoot member
      -- There are two nodes at least, so that the depth is enough for a child.
      have deep : depth ≠ 0 := by
        intro none
        rw [enough, none] at firstInside
        exact notRoot (Nat.lt_one_iff.mp firstInside)
      rcases outcome_copyWithin_childless table linked found childless deep
        firstInside notRoot with ⟨left, refused⟩
      exact .inr ⟨by simp, left, outcome_bind_of_refused _
        (outcome_forM_of_refused rest (outcome_bind_of_refused _ refused))⟩

theorem outcome_copyTree_childless (table : AliasTable) (linked : source.Linked)
    (found : before.nodes[parent]? = some host) (childless : ¬ host.content.IsContainer)
    (inside : node < source.size) :
    (source.grafted node = [] ∧
        outcome (table.copyTree source node parent) before = (.ok (.ok parent), before)) ∨
      (source.grafted node ≠ [] ∧
        ∃ left, outcome (table.copyTree source node parent) before =
          (.ok (.error (.notAContainer parent)), before.allocate left)) := by
  by_cases atRoot : node = root
  · subst atRoot
    rw [grafted, if_pos rfl]
    exact outcome_copyRoot_childless table linked found childless
  · rw [grafted, if_neg atRoot]
    exact .inr ⟨by simp, outcome_copyWithin_childless table linked found childless
      (Nat.ne_zero_of_lt inside) inside atRoot⟩

theorem exists_outcome_copyNode (table : AliasTable) (linked : source.Linked)
    (orderly : source.AllOrderly) (known : source.AllKnown) (inside : node < source.size)
    {nodes : List NodeId} (beforeLinked : before.Linked) (hosts : before.Hosts parent)
    (way : before.Way parent nodes) :
    ∃ answer after, outcome (table.copyNode source node parent) before =
      (.ok (.ok answer), after) := by
  by_cases atRoot : node = root
  · exact ⟨parent, before, atRoot ▸ outcome_copyNode_root table linked⟩
  · rcases exists_node_iff.mpr inside with ⟨original, found⟩
    have notDocument : original.content ≠ .document := fun same =>
      atRoot (linked.onlyTop found same)
    have held := content_of found
    rcases outcome_copyNode table beforeLinked hosts way held notDocument
      (fun element same => orderly node element (same ▸ held))
      (fun element same => known node element (same ▸ held)) with ⟨copied, _, _, result⟩
    exact ⟨_, _, result⟩

end AliasTable

/-- Copying to `parent` is refused where `parent` can have no children and there is
something to copy, and only there, with nothing left of it but a detached node. -/
structure Document.RefusesUpFront (before after : Document) (parent : NodeId)
    (something : Prop) (answer : Except Refusal NodeId) : Prop where
  refused : (∃ refusal, answer = .error refusal) ↔ ¬ before.Hosts parent ∧ something
  reason : ∀ {refusal : Refusal}, answer = .error refusal →
    refusal = .notAContainer parent
  left : ∀ {refusal : Refusal}, answer = .error refusal → before.GainsLoose after

namespace Document

variable {before after : Document} {parent : NodeId} {something : Prop}

theorem refusesUpFront_ok {answer : NodeId}
    (possible : before.Hosts parent ∨ ¬ something) :
    before.RefusesUpFront after parent something (.ok answer) where
  refused := by simpa [Classical.or_iff_not_imp_left] using possible
  reason := by simp
  left := by simp

theorem refusesUpFront_error (linked : before.Linked) (childless : ¬ before.Hosts parent)
    (some : something) (content : Content) :
    before.RefusesUpFront (before.allocate content) parent something
      (.error (.notAContainer parent)) where
  refused := ⟨fun _ => ⟨childless, some⟩, fun _ => ⟨_, rfl⟩⟩
  reason := fun same => (Except.error.inj same).symm
  left := fun _ => linked.gainsLoose_allocate content

end Document

namespace AliasTable

open Document

variable {source before : Document} {parent node : NodeId} {nodes : List NodeId}

theorem exists_refusesUpFront_copyNode (table : AliasTable) (linked : source.Linked)
    (orderly : source.AllOrderly) (known : source.AllKnown) (inside : node < source.size)
    (beforeLinked : before.Linked) (way : before.Way parent nodes)
    (parentInside : parent < before.size) :
    ∃ answer after, Edit.outcome (table.copyNode source node parent) before =
      (.ok answer, after) ∧
      before.RefusesUpFront after parent (node ≠ root) answer := by
  by_cases hosts : before.Hosts parent
  · rcases exists_outcome_copyNode table linked orderly known inside beforeLinked hosts
      way with
      ⟨_, _, outcome⟩
    exact ⟨_, _, outcome, refusesUpFront_ok (.inl hosts)⟩
  rcases exists_node_iff.mpr parentInside with ⟨host, found⟩
  have childless : ¬ host.content.IsContainer := fun container =>
    hosts ⟨host, found, container⟩
  by_cases atRoot : node = root
  · subst atRoot
    exact ⟨_, _, outcome_copyNode_root table linked,
      refusesUpFront_ok (.inr (not_not_intro rfl))⟩
  · rcases exists_node_iff.mpr inside with ⟨original, originalFound⟩
    rcases outcome_copyNode_childless table found childless (content_of originalFound)
      (fun same => atRoot (linked.onlyTop originalFound same)) with ⟨left, _, outcome⟩
    exact ⟨_, _, outcome, refusesUpFront_error beforeLinked hosts atRoot left⟩

theorem exists_refusesUpFront_copyTree (table : AliasTable) (linked : source.Linked)
    (orderly : source.AllOrderly) (known : source.AllKnown)
    (attached : source.Attached node) (beforeLinked : before.Linked)
    (way : before.Way parent nodes) (parentInside : parent < before.size) :
    ∃ answer after, Edit.outcome (table.copyTree source node parent) before =
      (.ok answer, after) ∧
      before.RefusesUpFront after parent (source.grafted node ≠ []) answer := by
  by_cases hosts : before.Hosts parent
  · rcases grafts_copyTree_of_known table linked orderly known.knownBelow attached
      beforeLinked hosts way with ⟨_, outcome, _⟩
    exact ⟨_, _, outcome, refusesUpFront_ok (.inl hosts)⟩
  rcases exists_node_iff.mpr parentInside with ⟨host, found⟩
  have childless : ¬ host.content.IsContainer := fun container =>
    hosts ⟨host, found, container⟩
  rcases outcome_copyTree_childless table linked found childless
    (attached.inside linked) with
    ⟨nothing, outcome⟩ | ⟨something, left, outcome⟩
  · exact ⟨_, _, outcome, refusesUpFront_ok (.inr (not_not_intro nothing))⟩
  · exact ⟨_, _, outcome, refusesUpFront_error beforeLinked hosts something left⟩

end AliasTable

namespace Run

open Document

/-- Nothing is refused but a first node at a parent that can have no children, whatever
is in scope there and whatever the aliases are. -/
theorem refusesUpFront_copy {run : Run} {node parent : NodeId}
    (sourceReachable : run.source.Reachable) (known : run.source.AllKnown)
    (attached : run.source.Attached node) (resultReachable : run.result.Reachable)
    (acyclic : run.result.Acyclic) (inside : parent < run.result.size) :
    (∃ answer result, run.copyNode node parent = .ok (answer, { run with result }) ∧
      run.result.RefusesUpFront result parent (node ≠ root) answer) ∧
    (∃ answer result, run.copyTree node parent = .ok (answer, { run with result }) ∧
      run.result.RefusesUpFront result parent (run.source.grafted node ≠ []) answer) := by
  have linked := sourceReachable.linked
  have orderly := sourceReachable.orderly
  have resultLinked := resultReachable.linked
  rcases acyclic parent with ⟨_, way⟩
  constructor
  · rcases AliasTable.exists_refusesUpFront_copyNode run.stylesheet.aliases linked
      orderly known (attached.inside linked) resultLinked way inside with
      ⟨answer, result, outcome, upFront⟩
    exact ⟨answer, result, edit_of outcome, upFront⟩
  · rcases AliasTable.exists_refusesUpFront_copyTree run.stylesheet.aliases linked
      orderly known attached resultLinked way inside with
      ⟨answer, result, outcome, upFront⟩
    exact ⟨answer, result, edit_of outcome, upFront⟩

theorem refusesUpFront_copy_letter :
    ∃ source result, after letter = some source ∧ after desk = some result ∧
      (∃ answer left,
        copyNode { stylesheet := {}, source, result } 1 2 =
          .ok (answer, { stylesheet := {}, source, result := left }) ∧
        result.RefusesUpFront left 2 (1 ≠ root) answer) ∧
      (∃ answer left,
        copyTree { stylesheet := {}, source, result } 1 2 =
          .ok (answer, { stylesheet := {}, source, result := left }) ∧
        result.RefusesUpFront left 2 (source.grafted 1 ≠ []) answer) := by
  have made : ∃ source result, after letter = some source ∧ after desk = some result :=
    ⟨_, _, rfl, rfl⟩
  rcases made with ⟨source, result, sourceMade, resultMade⟩
  rcases copyable_letter sourceMade resultMade with ⟨known, attached, acyclic, _⟩
  have inside : 2 < result.size := by cases resultMade; decide
  exact ⟨source, result, sourceMade, resultMade,
    @refusesUpFront_copy { stylesheet := {}, source, result } 1 2
      (reachable_of_after sourceMade) known attached (reachable_of_after resultMade)
      acyclic inside⟩

end Run

end ResultTree
