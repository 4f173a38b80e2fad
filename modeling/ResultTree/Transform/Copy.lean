import ResultTree.Transform.Namespace

namespace ResultTree

/-! Copying nodes of a source into a result. The names of a copy have to mean in
the result what the aliases make of their meaning in the source, and that is what
the order of steps is about: first the declarations of the element, then its own
name, then its attributes, each finding what came before. -/

namespace AliasTable

/-- A copy in no namespace must not fall into a default namespace that it
inherits. -/
def undeclareDefault (copy : NodeId) : Edit Unit := do
  let result ← get
  match ← result.findPrefix copy none with
  | none => return
  | some handle =>
      if handle.owner = copy ∨ (← result.binding handle).uri = "" then return
      else let _ ← Edit.declare copy none ""

def standIn (source : Document) (resolve : Binding → Edit (Option Handle)) :
    Option Handle → Edit (Option Handle)
  | none => return none
  | some handle => do resolve (← source.binding handle)

def copyAttribute (table : AliasTable) (source : Document) (copy : NodeId)
    (held : Attribute) : Edit Unit := do
  let ns ← standIn source (table.resolveAttribute · copy) held.ns
  Edit.setAttribute copy held.name ns held.value

def copyElement (table : AliasTable) (source : Document) (element : Element)
    (parent : NodeId) : Edit NodeId := do
  let copy ← Edit.appendElement parent element.name
  let _ ← table.copyDeclarations copy element.declarations
  let ns ← standIn source (table.resolve · copy) element.ns
  Edit.setNamespace copy ns
  if ns = none then undeclareDefault copy
  element.attributes.forM (table.copyAttribute source copy)
  return copy

def appendNew (parent : NodeId) (create : Edit NodeId) : Edit NodeId := do
  let copy ← create
  Edit.appendChild parent copy
  return copy

/-- Copy a node of the source, without its children, to the end of `parent`. The
copy of the document node is `parent` itself. -/
def copyNode (table : AliasTable) (source : Document) (node parent : NodeId) :
    Edit NodeId := do
  match ← source.content node with
  | .document => return parent
  | .element element => table.copyElement source element parent
  | .text text => appendNew parent (Edit.newText text)
  | .comment text => appendNew parent (Edit.newComment text)
  | .instruction target data => appendNew parent (Edit.newInstruction target data)

def copyWithin (table : AliasTable) (source : Document) :
    Nat → NodeId → NodeId → Edit NodeId
  | 0, _, _ => throwThe Fault .endlessWalk
  | depth + 1, node, parent => do
      let copy ← table.copyNode source node parent
      (← source.children node).forM fun child => do
        let _ ← table.copyWithin source depth child copy
      return copy

/-- Copy a node with all that is below it to the end of `parent`. No path in a
tree is longer than the document that holds it. -/
def copyTree (table : AliasTable) (source : Document) (node parent : NodeId) :
    Edit NodeId :=
  table.copyWithin source source.size node parent

end AliasTable

end ResultTree
