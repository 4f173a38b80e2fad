namespace ResultTree

/-! Nodes, namespace bindings and attributes are addressed by plain numbers, so
a caller can present an address that belongs to nothing. Two ways of failing
are kept apart throughout the library. A *refusal* is an answer: the operation
says why it does nothing, and everything goes on from there. A *fault* has no
answer: the computation that met it ends there and then.

Addresses are unbounded here, where a document keeps them in thirty-two bits. A
document never approaches `2 ^ 32 - 1` nodes, and an element never declares that
many namespaces, so that no address is cut off: what is proved of a document is
proved of one within these bounds. -/

/-- The position of a node in its document. It is a number without a bound, on the
understanding that no document comes near `2 ^ 32 - 1` nodes. -/
abbrev NodeId := Nat

def NodeId.text (node : NodeId) : String := s!"NodeId({node})"

example : NodeId.text 7 = "NodeId(7)" := rfl

inductive Fault
  | noSuchNode (node : NodeId)
  | noSuchBinding (owner : NodeId) (index : Nat)
  | endlessWalk
deriving DecidableEq, Repr

abbrev Reading := Except Fault

/-- A computation that looks at documents and may refuse for a reason `ε`. -/
abbrev Attempt (ε : Type) := ExceptT ε Reading

end ResultTree
