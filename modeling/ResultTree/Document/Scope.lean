import ResultTree.Document.Basic

namespace ResultTree

/-! The namespaces in scope at a node are those declared by the node and by its
ancestors, a nearer declaration of a prefix hiding a farther one. Everything
there is to ask about a scope is a question about one list: the declarations met
on the way up, nearest first. -/

/-- The nodes met on the way up from a node, itself first. A way up that comes
back to where it was is `endless`; the nodes then contain all that it passes. -/
structure Ascent where
  nodes : List NodeId
  endless : Bool
deriving DecidableEq, Repr

structure Declaration where
  handle : Handle
  binding : Binding
deriving DecidableEq, Repr

structure Scope where
  declarations : List Declaration
  endless : Bool
deriving DecidableEq, Repr

namespace Document

def parentLink (document : Document) (id : NodeId) : Option NodeId :=
  document.nodes[id]?.bind Node.parent

def declared (document : Document) (id : NodeId) : List Declaration :=
  match document.nodes[id]? with
  | some node => node.content.declarations.mapIdx fun index binding =>
      ⟨⟨id, index⟩, binding⟩
  | none => []

def climb (document : Document) : Nat → Option NodeId → Ascent
  | _, none => ⟨[], false⟩
  | 0, some _ => ⟨[], true⟩
  | steps + 1, some id =>
      let above := document.climb steps (document.parentLink id)
      ⟨id :: above.nodes, above.endless⟩

/-- The way up from a node. A way that ends visits no node twice, so one that is
longer than the document does not end. -/
def ascent (document : Document) (id : NodeId) : Reading Ascent := do
  let _ ← document.node id
  return document.climb document.size (some id)

def scope (document : Document) (id : NodeId) : Reading Scope := do
  let ascent ← document.ascent id
  return ⟨ascent.nodes.flatMap document.declared, ascent.endless⟩

end Document

namespace Scope

def nearest? (scope : Scope) (nsPrefix : Option String) : Option Handle :=
  (scope.declarations.find? (·.binding.nsPrefix = nsPrefix)).map Declaration.handle

/-- The nearest declaration of a URI that no nearer declaration hides. -/
def nearestOf? (scope : Scope) (uri : String) : Option Handle :=
  (scope.declarations.find? fun declaration =>
    declaration.binding.uri = uri &&
      scope.nearest? declaration.binding.nsPrefix = some declaration.handle).map
    Declaration.handle

/-- A declaration that is hidden is not found by its URI, and another prefix for
the URI helps. -/
example :
    let inner : Declaration := ⟨⟨2, 0⟩, ⟨some "p", "urn:b"⟩⟩
    let hidden : Declaration := ⟨⟨1, 0⟩, ⟨some "p", "urn:a"⟩⟩
    let outer : Declaration := ⟨⟨1, 1⟩, ⟨some "q", "urn:a"⟩⟩
    nearestOf? ⟨[inner, hidden], false⟩ "urn:a" = none ∧
      nearestOf? ⟨[inner, hidden, outer], false⟩ "urn:a" = some ⟨1, 1⟩ := by
  decide

def visible (scope : Scope) : List Declaration :=
  scope.declarations.eraseDupsBy fun farther nearer =>
    farther.binding.nsPrefix = nearer.binding.nsPrefix

/-- A search that found nothing on an endless way would still be searching. -/
def conclude (scope : Scope) (found : Option α) : Reading (Option α) :=
  if found.isNone && scope.endless then throw .endlessWalk else pure found

end Scope

namespace Document

/-- The nearest declaration of a prefix in scope at a node. The prefix `xml`
denotes its own binding everywhere, at detached nodes too. -/
def findPrefix (document : Document) (id : NodeId) (nsPrefix : Option String) :
    Reading (Option Handle) := do
  if nsPrefix = some "xml" then return some xmlHandle
  else
    let scope ← document.scope id
    scope.conclude (scope.nearest? nsPrefix)

def findUri (document : Document) (id : NodeId) (uri : String) :
    Reading (Option Handle) := do
  if uri = xmlUri then return some xmlHandle
  else
    let scope ← document.scope id
    scope.conclude (scope.nearestOf? uri)

def inScope (document : Document) (id : NodeId) : Reading (List Declaration) := do
  let scope ← document.scope id
  if scope.endless then throw .endlessWalk
  else return scope.visible

end Document

end ResultTree
