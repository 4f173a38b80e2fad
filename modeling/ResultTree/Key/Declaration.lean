import ResultTree.Key.Definition
import ResultTree.Stylesheet.Registration

namespace ResultTree.Key

/-! A key declaration has three attributes: the name of the key, a match pattern
and a use expression. All three have to be there, and each one that is not is
reported. -/

structure Declaration where
  node : NodeId
  line : Nat
  qname? : Option String
  matchSource? : Option String
  useSource? : Option String
deriving DecidableEq, Repr

namespace Declaration

def read (document : Document) (node : NodeId) : Reading Declaration := do
  let line ← document.line node
  let qname? ← document.attributeValue? node "name" transformUri
  let matchSource? ← document.attributeValue? node "match" transformUri
  let useSource? ← document.attributeValue? node "use" transformUri
  return { node, line, qname?, matchSource?, useSource? }

def missing (declaration : Declaration) : List Diagnostic :=
  [("name", declaration.qname?), ("match", declaration.matchSource?),
      ("use", declaration.useSource?)].filterMap fun (name, value) =>
    if value.isNone then
      some (.missingKeyAttribute declaration.node declaration.line name)
    else none

def expand (declaration : Declaration) (scope : PrefixScope) (qname : String) :
    Attempt Diagnostic Name := do
  match splitQName qname with
  | (none, localName) => return ⟨localName, none⟩
  | (some nsPrefix, localName) =>
      match ← scope nsPrefix with
      | some uri => return ⟨localName, some uri⟩
      | none =>
          throw
            (.unboundPrefix .keyNameUnbound declaration.node declaration.line nsPrefix)

def report (declaration : Declaration) (error : DefinitionError) : Diagnostic :=
  .invalidKeyExpression declaration.node declaration.line error.isMatch error.source
    error.reason.message

/-- The definition that a declaration states, or all that is wrong with it. -/
def definition (declaration : Declaration) (scope : PrefixScope) :
    Attempt (List Diagnostic) Definition := do
  match declaration.qname?, declaration.matchSource?, declaration.useSource? with
  | some qname, some matchSource, some useSource =>
      let name ← (declaration.expand scope qname).adapt ([·])
      (Definition.compile name matchSource useSource scope).adapt ([declaration.report ·])
  | _, _, _ => throw declaration.missing

end Declaration

def Definitions.register (definitions : Definitions) (document : Document)
    (node : NodeId) :
    Reading (Registration Definitions) := do
  let declaration ← Declaration.read document node
  match ← (declaration.definition (.ofNode document node)).run with
  | .ok definition => return .accept (definitions.add definition) []
  | .error diagnostics => return .rejected definitions diagnostics

end ResultTree.Key
