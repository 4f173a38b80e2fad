import ResultTree.Proofs.Document.Handles

namespace ResultTree.Document

/-! Links as the functions on documents tell them. Nodes may be made, attached in any
order, attached to themselves or refused: the two records of a link agree, and the walk
from the document node finds the nodes whose way up ends there. -/

theorem Linked.descendants_root {document : Document} (linked : document.Linked) :
    document.descendants root = .ok (document.subtree root) :=
  descendants_eq_subtree linked (.top linked.rootLoose) linked.rootInside

theorem Linked.nodup_subtree_root {document : Document} (linked : document.Linked) :
    (document.subtree root).Nodup :=
  nodup_preorder linked (.top linked.rootLoose) _

theorem Linked.mem_subtree_root_iff {document : Document} (linked : document.Linked)
    {id : NodeId} : id ∈ document.subtree root ↔ document.Attached id :=
  mem_subtree_iff linked (.top linked.rootLoose) linked.rootInside

theorem Linked.attached_iff {document : Document} (linked : document.Linked)
    {id : NodeId} :
    document.Attached id ↔
      ∃ way, document.ancestorsOrSelf id = .ok way ∧ way.getLast? = some root := by
  constructor
  · intro attached
    rcases attached.way linked with ⟨before, way⟩
    refine ⟨before ++ [root], ?_, by simp⟩
    exact (ancestorsOrSelf_eq_ok_iff linked).mpr ⟨attached.inside linked, way⟩
  · rintro ⟨nodes, answered, last⟩
    rcases (ancestorsOrSelf_eq_ok_iff linked).mp answered with ⟨_, way⟩
    exact way.mem_iff_passes.mp (List.mem_of_getLast? last)

/-- Both records of every link agree, and the walk from the document node finds what is
linked to it. -/
structure Interlinked (document : Document) : Prop where
  answered : ∀ id < document.size, ∃ parent children,
    document.parent id = .ok parent ∧ document.children id = .ok children
  listed : ∀ {parent child : NodeId}, document.parent child = .ok (some parent) ↔
    ∃ children, document.children parent = .ok children ∧ child ∈ children
  once : ∀ {parent : NodeId} {children : List NodeId},
    document.children parent = .ok children →
    children.Nodup
  parentInside : ∀ {parent child : NodeId}, document.parent child = .ok (some parent) →
    parent < document.size
  childInside : ∀ {parent : NodeId} {children : List NodeId},
    document.children parent = .ok children → ∀ child ∈ children, child < document.size
  rootLoose : document.parent root = .ok none
  rootUnlisted : ∀ {parent : NodeId} {children : List NodeId},
    document.children parent = .ok children → root ∉ children
  host : ∀ {parent : NodeId} {children : List NodeId},
    document.children parent = .ok children →
    children ≠ [] → document.content parent = .ok .document ∨
      ∃ element, document.content parent = .ok (.element element)
  visited : ∃ visited, document.descendants root = .ok visited ∧ visited.Nodup ∧
    ∀ id, id ∈ visited ↔
      ∃ way, document.ancestorsOrSelf id = .ok way ∧ way.getLast? = some root

theorem children_eq_ok_iff {document : Document} {id : NodeId} {children : List NodeId} :
    document.children id = .ok children ↔
      id < document.size ∧ document.childLinks id = children := by
  constructor
  · intro answered
    rcases Reading.map_eq_ok_iff.mp answered with ⟨node, known, rfl⟩
    have found := node_eq_ok_iff.mp known
    exact ⟨lt_size_of_node found, childLinks_of found⟩
  · rintro ⟨inside, rfl⟩
    exact children_eq_childLinks inside

theorem parent_eq_ok_some_iff {document : Document} {id parent : NodeId} :
    document.parent id = .ok (some parent) ↔ document.parentLink id = some parent := by
  constructor
  · intro answered
    rcases Reading.map_eq_ok_iff.mp answered with ⟨node, known, link⟩
    exact (parentLink_of (node_eq_ok_iff.mp known)).trans link
  · intro link
    rw [parent_eq_parentLink (lt_size_of_parentLink link), link]

theorem Reachable.interlinked {document : Document} (reachable : document.Reachable) :
    document.Interlinked := by
  have linked := reachable.linked
  refine ⟨?answered, ?listed, ?once, ?parentInside, ?childInside, ?rootLoose,
    ?rootUnlisted, ?host, ?visited⟩
  case answered =>
    exact fun id inside =>
      ⟨_, _, parent_eq_parentLink inside, children_eq_childLinks inside⟩
  case listed =>
    intro parent child
    rw [parent_eq_ok_some_iff, ← linked.listed]
    constructor
    · intro member
      exact ⟨_, children_eq_childLinks (lt_size_of_mem_childLinks member), member⟩
    · rintro ⟨children, answered, member⟩
      exact (children_eq_ok_iff.mp answered).2 ▸ member
  case once =>
    intro parent children answered
    exact (children_eq_ok_iff.mp answered).2 ▸ linked.once parent
  case parentInside =>
    exact fun link => linked.parentInside (parent_eq_ok_some_iff.mp link)
  case childInside =>
    intro parent children answered child member
    exact linked.childInside ((children_eq_ok_iff.mp answered).2 ▸ member)
  case rootLoose => rw [parent_eq_parentLink linked.rootInside, linked.rootLoose]
  case rootUnlisted =>
    intro parent children answered member
    exact linked.childNotRoot ((children_eq_ok_iff.mp answered).2 ▸ member) rfl
  case host =>
    intro parent children answered some
    rcases Reading.map_eq_ok_iff.mp answered with ⟨node, known, rfl⟩
    have found := node_eq_ok_iff.mp known
    have container := linked.host found some
    cases shape : node.content with
    | document => exact .inl (content_of found |>.trans (congrArg _ shape))
    | element element =>
        exact .inr ⟨element, content_of found |>.trans (congrArg _ shape)⟩
    | _ => simp [shape, Content.IsContainer] at container
  case visited =>
    refine ⟨_, linked.descendants_root, linked.nodup_subtree_root, ?_⟩
    exact fun id => linked.mem_subtree_root_iff.trans linked.attached_iff

def entangled : List Operation :=
  [.newElement "loop", .appendChild 1 1, .newElement "inner", .newText "text",
    .appendChild 2 3, .appendChild 3 2, .newElement "outer", .appendChild 4 2,
    .appendChild 0 4, .appendChild 1 2, .appendElement 3 "lost"]

theorem interlinked_entangled :
    ∃ document, after entangled = some document ∧ document.Interlinked ∧
      document.children 1 = .ok [1] ∧ document.descendants root = .ok [0, 4, 2, 3] :=
  ⟨_, rfl, Reachable.interlinked (@reachable_of_after entangled _ rfl), rfl, rfl⟩

end ResultTree.Document
