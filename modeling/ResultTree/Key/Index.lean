import ResultTree.Key.Definition

namespace ResultTree.Key

/-! The index of a key lists, under each value, the nodes that have the value.
It is made in one walk over the document, so the nodes under a value stand in
document order, and a node that has a value twice follows itself there at once:
looking at the last node of a list is enough to keep a node from being listed
twice. -/

structure Index where
  entries : OrderedMap String (Array NodeId)
deriving DecidableEq, Repr

namespace Index

def empty : Index := ⟨.empty⟩

/-- List a node under a value, unless it is the last one there. -/
def post (index : Index) (value : String) (id : NodeId) : Index where
  entries := index.entries.update value fun present =>
    let nodes := present.getD #[]
    if nodes.back? = some id then nodes else nodes.push id

def valuesOf (definitions : List Definition) (document : Document) (id : NodeId) :
    Reading (List String) := do
  let accepting ← definitions.filterM fun definition => definition.accepts document id
  return (← accepting.mapM fun definition => definition.values document id).flatten

def postings (definitions : List Definition) (document : Document) :
    Reading (List (NodeId × List String)) := do
  let below := (← document.descendants Document.root).drop 1
  below.mapM fun id => do return (id, ← valuesOf definitions document id)

def ofPostings (postings : List (NodeId × List String)) : Index :=
  postings.foldl
    (fun index (id, values) =>
      values.foldl (fun index value => index.post value id) index) empty

def build (definitions : List Definition) (document : Document) : Reading Index :=
  ofPostings <$> postings definitions document

def get (index : Index) (value : String) : List NodeId :=
  ((index.entries.get? value).getD #[]).toList

def size (index : Index) : Nat := index.entries.size

def isEmpty (index : Index) : Bool := index.entries.isEmpty

end Index

end ResultTree.Key
