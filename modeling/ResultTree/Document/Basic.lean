import ResultTree.Namespace

namespace ResultTree

/-! A document holds all of its nodes in one list, the attached ones and those
that no tree contains yet. A node is known by its position there, so its links
are positions too, and nodes never move. -/

/-- An attribute. Its namespace is a handle into the owning document, and
absent for a name without a prefix. -/
structure Attribute where
  name : String
  ns : Option Handle
  value : String
deriving DecidableEq, Repr

/-- What an element adds to a node: its local name, its own namespace, the
namespaces that it declares and its attributes, both in order of arrival. -/
structure Element where
  name : String
  ns : Option Handle := none
  declarations : List Binding := []
  attributes : List Attribute := []
deriving DecidableEq, Repr

inductive Content
  | document
  | element (element : Element)
  | text (text : String)
  | comment (text : String)
  | instruction (target : String) (data : String)
deriving DecidableEq, Repr

structure Node where
  content : Content
  parent : Option NodeId := none
  children : List NodeId := []
  line : Nat := 0
deriving DecidableEq, Repr

/-- All nodes of a document; the first one is the document node. -/
structure Document where
  nodes : Array Node
deriving DecidableEq, Repr

namespace Document

def root : NodeId := 0

def empty : Document := ⟨#[{ content := .document }]⟩

def size (document : Document) : Nat := document.nodes.size

def node (document : Document) (id : NodeId) : Reading Node :=
  match document.nodes[id]? with
  | some node => .ok node
  | none => .error (.noSuchNode id)

def content (document : Document) (id : NodeId) : Reading Content :=
  (·.content) <$> document.node id

def parent (document : Document) (id : NodeId) : Reading (Option NodeId) :=
  (·.parent) <$> document.node id

def children (document : Document) (id : NodeId) : Reading (List NodeId) :=
  (·.children) <$> document.node id

def line (document : Document) (id : NodeId) : Reading Nat :=
  (·.line) <$> document.node id

end Document

/-! What follows asks about elements; other nodes answer with nothing. -/

def Content.element? : Content → Option Element
  | .element held => some held
  | _ => none

/-- The namespaces that a node declares. The binding of `xml` is held by the
document node, where it is in scope everywhere and never written out. -/
def Content.declarations : Content → List Binding
  | .element held => held.declarations
  | .document => [Binding.xml]
  | _ => []

namespace Document

def element? (document : Document) (id : NodeId) : Reading (Option Element) :=
  (·.element?) <$> document.content id

def isElement (document : Document) (id : NodeId) : Reading Bool :=
  (·.isSome) <$> document.element? id

def localName? (document : Document) (id : NodeId) : Reading (Option String) :=
  (·.map Element.name) <$> document.element? id

def ownNamespace? (document : Document) (id : NodeId) : Reading (Option Handle) :=
  (·.bind Element.ns) <$> document.element? id

def attributes (document : Document) (id : NodeId) : Reading (List Attribute) :=
  (fun element => element.elim [] Element.attributes) <$> document.element? id

def declarations (document : Document) (id : NodeId) : Reading (List Binding) :=
  (·.declarations) <$> document.content id

def xmlHandle : Handle := ⟨root, 0⟩

def binding (document : Document) (handle : Handle) : Reading Binding := do
  match (← document.declarations handle.owner)[handle.index]? with
  | some binding => pure binding
  | none => throw (.noSuchBinding handle.owner handle.index)

def uri? (document : Document) : Option Handle → Reading (Option String)
  | none => pure none
  | some handle => do return some (← document.binding handle).uri

def namespaceUri? (document : Document) (id : NodeId) : Reading (Option String) := do
  document.uri? (← document.ownNamespace? id)

/-- The namespace of an attribute with another name is not looked at. -/
def answers (document : Document) (name uri : String)
    (candidate : Attribute) : Reading Bool := do
  if candidate.name = name then
    match ← document.uri? candidate.ns with
    | none => pure true
    | some own => pure (own = uri)
  else pure false

def attributeValue? (document : Document) (id : NodeId) (name uri : String) :
    Reading (Option String) := do
  let found ← (← document.attributes id).findM? (document.answers name uri)
  return found.map Attribute.value

def documentElement? (document : Document) : Reading (Option NodeId) := do
  (← document.children root).findM? document.isElement

end Document

end ResultTree
