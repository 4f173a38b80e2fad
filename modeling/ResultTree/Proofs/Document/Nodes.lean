import Mathlib.Logic.Relation
import ResultTree.Document.Edit
import ResultTree.Document.Scope
import ResultTree.Proofs.Reading

namespace ResultTree.Document

/-! A document is a partial function from addresses to nodes. Every look at a
document is a look at one node, and every change of one says which nodes it
leaves as they are. -/

variable {document : Document} {id : NodeId} {node : Node}

/-! ## Looking at a node -/

theorem node_eq_ok_iff :
    document.node id = .ok node ↔ document.nodes[id]? = some node := by
  unfold Document.node
  cases document.nodes[id]? <;> simp

theorem exists_node_iff :
    (∃ node, document.nodes[id]? = some node) ↔ id < document.size := by
  rw [← Option.isSome_iff_exists]
  simp [size]

theorem lt_size_of_node (found : document.nodes[id]? = some node) : id < document.size :=
  exists_node_iff.mp ⟨node, found⟩

theorem node_of (found : document.nodes[id]? = some node) : document.node id = .ok node :=
  node_eq_ok_iff.mpr found

theorem nodes_eq_none_iff : document.nodes[id]? = none ↔ document.size ≤ id := by
  simp [size]

theorem node_of_none (missing : document.nodes[id]? = none) :
    document.node id = .error (.noSuchNode id) := by
  simp [Document.node, missing]

theorem content_of (found : document.nodes[id]? = some node) :
    document.content id = .ok node.content := by
  simp [content, node_of found]

theorem content_eq_ok_iff {content : Content} :
    document.content id = .ok content ↔
      ∃ node, document.nodes[id]? = some node ∧ node.content = content := by
  simp [Document.content, Reading.map_eq_ok_iff, node_eq_ok_iff]

theorem lt_size_of_content {content : Content}
    (held : document.content id = .ok content) :
    id < document.size := by
  rcases content_eq_ok_iff.mp held with ⟨_, found, _⟩
  exact lt_size_of_node found

theorem content_of_none (missing : document.nodes[id]? = none) :
    document.content id = .error (.noSuchNode id) := by
  simp [content, node_of_none missing]

theorem parent_of (found : document.nodes[id]? = some node) :
    document.parent id = .ok node.parent := by
  simp [parent, node_of found]

theorem parent_of_none (missing : document.nodes[id]? = none) :
    document.parent id = .error (.noSuchNode id) := by
  simp [parent, node_of_none missing]

theorem children_of (found : document.nodes[id]? = some node) :
    document.children id = .ok node.children := by
  simp [children, node_of found]

theorem line_of (found : document.nodes[id]? = some node) :
    document.line id = .ok node.line := by
  simp [line, node_of found]

theorem element?_of (found : document.nodes[id]? = some node) :
    document.element? id = .ok node.content.element? := by
  simp [Document.element?, content_of found]

theorem element?_of_none (missing : document.nodes[id]? = none) :
    document.element? id = .error (.noSuchNode id) := by
  simp [Document.element?, content_of_none missing]

theorem isElement_of (found : document.nodes[id]? = some node) :
    document.isElement id = .ok node.content.element?.isSome := by
  simp [isElement, element?_of found]

theorem localName?_of (found : document.nodes[id]? = some node) :
    document.localName? id = .ok (node.content.element?.map Element.name) := by
  simp [localName?, element?_of found]

theorem ownNamespace?_of (found : document.nodes[id]? = some node) :
    document.ownNamespace? id = .ok (node.content.element?.bind Element.ns) := by
  simp [ownNamespace?, element?_of found]

theorem attributes_of (found : document.nodes[id]? = some node) :
    document.attributes id = .ok (node.content.element?.elim [] Element.attributes) := by
  simp [attributes, element?_of found]

theorem declarations_of (found : document.nodes[id]? = some node) :
    document.declarations id = .ok node.content.declarations := by
  simp [declarations, content_of found]

theorem binding_eq_ok_iff {handle : Handle} {binding : Binding} :
    document.binding handle = .ok binding ↔
      ∃ node, document.nodes[handle.owner]? = some node ∧
        node.content.declarations[handle.index]? = some binding := by
  unfold Document.binding
  cases found : document.nodes[handle.owner]? with
  | none => simp [declarations, content, Document.node, found]
  | some node =>
      cases declared : node.content.declarations[handle.index]? <;>
        simp [declarations_of found, declared]

/-! ## The links of a node -/

def childLinks (document : Document) (id : NodeId) : List NodeId :=
  document.nodes[id]?.elim [] Node.children

theorem parentLink_of (found : document.nodes[id]? = some node) :
    document.parentLink id = node.parent := by
  simp [parentLink, found]

theorem childLinks_of (found : document.nodes[id]? = some node) :
    document.childLinks id = node.children := by
  simp [childLinks, found]

theorem lt_size_of_parentLink {parent : NodeId}
    (link : document.parentLink id = some parent) :
    id < document.size := by
  rcases Option.bind_eq_some_iff.mp link with ⟨node, found, _⟩
  exact lt_size_of_node found

theorem lt_size_of_mem_childLinks {child : NodeId}
    (member : child ∈ document.childLinks id) :
    id < document.size := by
  cases found : document.nodes[id]? with
  | none => simp [childLinks, found] at member
  | some node => exact lt_size_of_node found

theorem parent_eq_parentLink (inside : id < document.size) :
    document.parent id = .ok (document.parentLink id) := by
  rcases exists_node_iff.mpr inside with ⟨node, found⟩
  rw [parent_of found, parentLink_of found]

theorem children_eq_childLinks (inside : id < document.size) :
    document.children id = .ok (document.childLinks id) := by
  rcases exists_node_iff.mpr inside with ⟨node, found⟩
  rw [children_of found, childLinks_of found]

/-! ## Changing nodes -/

@[simp] theorem size_allocate (content : Content) :
    (document.allocate content).size = document.size + 1 := by
  simp [size, allocate]

@[simp] theorem size_modify (target : NodeId) (change : Node → Node) :
    (document.modify target change).size = document.size := by
  simp [size, modify]

@[simp] theorem size_attach (parent child : NodeId) :
    (document.attach parent child).size = document.size := by
  simp [attach]

@[simp] theorem size_putElement (target : NodeId) (element : Element) :
    (document.putElement target element).size = document.size := by
  simp [putElement]

theorem nodes_allocate (content : Content) :
    (document.allocate content).nodes[id]? =
      if id = document.size then some { content } else document.nodes[id]? :=
  Array.getElem?_push

theorem nodes_modify (target : NodeId) (change : Node → Node) :
    (document.modify target change).nodes[id]? =
      if id = target then document.nodes[id]?.map change else document.nodes[id]? := by
  simp only [modify, Array.getElem?_modify, eq_comm]

theorem nodes_attach (parent child : NodeId) :
    (document.attach parent child).nodes[id]? =
      document.nodes[id]?.map fun node =>
        { node with
          parent := if id = child then some parent else node.parent
          children :=
            if id = parent then node.children ++ [child] else node.children } := by
  simp only [attach, nodes_modify]
  cases document.nodes[id]? <;> split <;> split <;> simp

theorem nodes_putElement (target : NodeId) (element : Element) :
    (document.putElement target element).nodes[id]? =
      document.nodes[id]?.map fun node =>
        { node with
          content := if id = target then .element element else node.content } := by
  simp only [putElement, nodes_modify]
  cases document.nodes[id]? <;> split <;> simp

theorem eq_of_nodes {left right : Document}
    (same : ∀ id : NodeId, left.nodes[id]? = right.nodes[id]?) : left = right := by
  rcases left with ⟨left⟩
  rcases right with ⟨right⟩
  exact congrArg Document.mk (Array.ext_getElem? same)

theorem putElement_self {element : Element}
    (held : document.content id = .ok (.element element)) :
    document.putElement id element = document := by
  rcases content_eq_ok_iff.mp held with ⟨node, found, shape⟩
  apply eq_of_nodes
  intro other
  rw [nodes_putElement]
  cases otherFound : document.nodes[other]? with
  | none => rfl
  | some before =>
      by_cases atId : other = id
      · rw [atId, found] at otherFound
        cases otherFound
        simp [atId, ← shape]
      · simp [atId]

theorem putElement_putElement (first second : Element) :
    (document.putElement id first).putElement id second =
      document.putElement id second := by
  apply eq_of_nodes
  intro other
  simp only [nodes_putElement]
  cases document.nodes[other]? with
  | none => rfl
  | some before => by_cases atId : other = id <;> simp [atId]

theorem content_putElement {element : Element} (replacement : Element)
    (held : document.content id = .ok (.element element)) :
    (document.putElement id replacement).content id = .ok (.element replacement) := by
  rcases content_eq_ok_iff.mp held with ⟨node, found, _⟩
  rw [content, @node_of _ _ { node with content := .element replacement }]
  · rfl
  · simp [nodes_putElement, found]

theorem content_congr {changed : Document} (same : changed.nodes[id]?.map Node.content =
    document.nodes[id]?.map Node.content) : changed.content id = document.content id := by
  cases before : document.nodes[id]? with
  | none =>
      rw [before, Option.map_none, Option.map_eq_none_iff] at same
      rw [content_of_none before, content_of_none same]
  | some node =>
      rw [before, Option.map_some] at same
      rcases Option.map_eq_some_iff.mp same with ⟨after, found, shape⟩
      rw [content_of before, content_of found, shape]

theorem content_putElement_other {target : NodeId} {element : Element}
    (different : id ≠ target) :
    (document.putElement target element).content id = document.content id := by
  apply content_congr
  simp only [nodes_putElement, if_neg different, Option.map_map]
  rfl

theorem nodes_size_eq_none : document.nodes[document.size]? = none := by
  simp [size]

/-! ## What a change leaves of the links -/

@[simp] theorem parentLink_allocate (content : Content) :
    (document.allocate content).parentLink id = document.parentLink id := by
  simp only [parentLink, nodes_allocate]
  split
  · next fresh => simp [fresh, nodes_size_eq_none]
  · rfl

@[simp] theorem childLinks_allocate (content : Content) :
    (document.allocate content).childLinks id = document.childLinks id := by
  simp only [childLinks, nodes_allocate]
  split
  · next fresh => simp [fresh, nodes_size_eq_none]
  · rfl

@[simp] theorem parentLink_putElement (target : NodeId) (element : Element) :
    (document.putElement target element).parentLink id = document.parentLink id := by
  simp only [parentLink, nodes_putElement]
  cases document.nodes[id]? <;> rfl

@[simp] theorem childLinks_putElement (target : NodeId) (element : Element) :
    (document.putElement target element).childLinks id = document.childLinks id := by
  simp only [childLinks, nodes_putElement]
  cases document.nodes[id]? <;> rfl

theorem parentLink_attach {parent child : NodeId} (inside : child < document.size) :
    (document.attach parent child).parentLink id =
      if id = child then some parent else document.parentLink id := by
  simp only [parentLink, nodes_attach]
  by_cases same : id = child
  · rcases exists_node_iff.mpr inside with ⟨node, found⟩
    simp [same, found]
  · cases document.nodes[id]? <;> simp [same]

theorem childLinks_attach {parent child : NodeId} (inside : parent < document.size) :
    (document.attach parent child).childLinks id =
      if id = parent then document.childLinks id ++ [child]
      else document.childLinks id := by
  simp only [childLinks, nodes_attach]
  by_cases same : id = parent
  · rcases exists_node_iff.mpr inside with ⟨node, found⟩
    simp [same, found]
  · cases document.nodes[id]? <;> simp [same]

end ResultTree.Document
