import ResultTree.Document.Scope

namespace ResultTree.Document

/-! Walks over a document. A walk along links that run in a circle never ends,
which is a fault; on a tree every walk visits each node at most once, and the
size of the document bounds it. -/

def ancestorsOrSelf (document : Document) (id : NodeId) : Reading (List NodeId) := do
  let ascent ← document.ascent id
  if ascent.endless then throw .endlessWalk
  else return ascent.nodes

def ancestors (document : Document) (id : NodeId) : Reading (List NodeId) := do
  return (← document.ancestorsOrSelf id).drop 1

/-- Visit pending nodes in turn, the children of each before what was pending
with it, for a number of visits at most. -/
def visit (document : Document) : Nat → List NodeId → Reading (List NodeId)
  | _, [] => pure []
  | 0, _ :: _ => throw .endlessWalk
  | visits + 1, id :: pending => do
      let children ← document.children id
      return id :: (← document.visit visits (children ++ pending))

def descendants (document : Document) (id : NodeId) : Reading (List NodeId) :=
  document.visit document.size [id]

def ownText? (document : Document) (id : NodeId) : Reading (Option String) := do
  match ← document.content id with
  | .text text => return some text
  | _ => return none

/-- The string value of a node: for a container the text of all text nodes below
it, for any other node what it holds. -/
def stringValue (document : Document) (id : NodeId) : Reading String := do
  match ← document.content id with
  | .text text | .comment text => return text
  | .instruction _ data => return data
  | .document | .element _ =>
      let texts ← (← document.descendants id).filterMapM document.ownText?
      return String.join texts

end ResultTree.Document
