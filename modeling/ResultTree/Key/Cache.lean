import ResultTree.Key.Index

namespace ResultTree.Key

/-! An index is built when a key is first asked for in a document, and kept. A
document is recognised by an identity and not by what it holds, so an index goes
on answering for the document as it stood when it was built. -/

abbrev DocumentId := Nat

structure Cache where
  indexes : OrderedMap (Name × DocumentId) Index
deriving DecidableEq, Repr

namespace Cache

def empty : Cache := ⟨.empty⟩

def size (cache : Cache) : Nat := cache.indexes.size

def isEmpty (cache : Cache) : Bool := cache.indexes.isEmpty

/-- The nodes of a document that have a value under a key, from the index that is
there or else from a new one. A key without definitions has no nodes, and no
index. -/
def lookup (cache : Cache) (definitions : Definitions) (identity : DocumentId)
    (document : Document) (name : Name) (value : String) :
    Reading (List NodeId × Cache) := do
  match definitions.get? name, cache.indexes.get? (name, identity) with
  | none, _ => return ([], cache)
  | some _, some index => return (index.get value, cache)
  | some present, none =>
      let index ← Index.build present document
      return (index.get value, ⟨cache.indexes.insert (name, identity) index⟩)

end Cache

end ResultTree.Key
