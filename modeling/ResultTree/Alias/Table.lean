import ResultTree.Fault
import ResultTree.OrderedMap

namespace ResultTree

/-! A namespace alias says that what a stylesheet writes in one namespace is
meant for another in the result. That is how a stylesheet can write elements
that would be instructions if they stood for themselves. -/

structure Alias where
  target : String
  declaredBy : NodeId
deriving DecidableEq, Repr

structure AliasTable where
  aliases : OrderedMap String Alias
deriving DecidableEq, Repr

namespace AliasTable

def empty : AliasTable := ⟨.empty⟩

def size (table : AliasTable) : Nat := table.aliases.size

def isEmpty (table : AliasTable) : Bool := table.aliases.isEmpty

def get? (table : AliasTable) (uri : String) : Option String :=
  (table.aliases.get? uri).map Alias.target

/-- The namespace in the result. What an alias leads to is not looked up again. -/
def target (table : AliasTable) (uri : String) : String := (table.get? uri).getD uri

def declare (table : AliasTable) (uri : String) (declared : Alias) : AliasTable :=
  ⟨table.aliases.insert uri declared⟩

def sameAliases (left right : AliasTable) : Bool :=
  left.aliases.sameBindings right.aliases

@[simp] theorem get?_declare_same (table : AliasTable) (uri : String) (declared : Alias) :
    (table.declare uri declared).get? uri = some declared.target := by
  simp [get?, declare, OrderedMap.insert]

theorem get?_declare_other (table : AliasTable) {uri other : String}
    (different : other ≠ uri) (declared : Alias) :
    (table.declare uri declared).get? other = table.get? other := by
  simp [get?, declare, OrderedMap.insert, OrderedMap.get?_update_other _ different]

/-- Two aliases in a row are not followed. -/
example :
    let table := (empty.declare "urn:a" ⟨"urn:b", 1⟩).declare "urn:b" ⟨"urn:c", 2⟩
    table.target "urn:a" = "urn:b" := by
  decide

end AliasTable

end ResultTree
