import ResultTree.Alias.Table
import ResultTree.Document.Edit
import ResultTree.Document.Scope

namespace ResultTree

/-! Which binding of the result stands in for a binding of the source. A binding
that is in scope is preferred to a new declaration, and an alias is applied once.
All this may leave a name without a namespace, but it never fails. -/

namespace AliasTable

/-- Find or make the binding of the result that stands in for `wanted` at the
node `out`. The own namespace of `out` is taken if it has the wanted URI as it
is, without an alias. Otherwise the URI goes through the aliases: the nearest
binding of what comes out is taken, or else one is declared on `out` under the
wanted prefix. An empty URI, a node that is no element and a prefix that `out`
cannot declare all leave nothing. -/
def resolve (table : AliasTable) (wanted : Binding) (out : NodeId) :
    Edit (Option Handle) := do
  if wanted.uri = "" then return none
  else
    let result ← get
    let own ← result.ownNamespace? out
    if (← result.uri? own) = some wanted.uri then return own
    else
      let uri := table.target wanted.uri
      match ← result.findUri out uri with
      | some found => return some found
      | none =>
          if ← result.isElement out then
            Edit.attempt (Edit.declare out wanted.nsPrefix uri)
          else return none

def declareAll (table : AliasTable) (out : NodeId) : List Binding → Edit (List Handle)
  | [] => return []
  | binding :: rest => do
      match ← Edit.attempt
        (Edit.declare out binding.nsPrefix (table.target binding.uri)) with
      | none => return []
      | some handle => return handle :: (← declareAll table out rest)

/-- Declare the bindings of a source element on its copy `out`. Bindings of the
transformation namespace are left out; the first refusal ends the copying and
leaves what was declared before. -/
def copyDeclarations (table : AliasTable) (out : NodeId) (bindings : List Binding) :
    Edit (List Handle) :=
  declareAll table out (bindings.filter (·.uri ≠ transformUri))

end AliasTable

/-! An attribute without a prefix is in no namespace, so a default binding is of
no use for one that is in a namespace. -/

def prefixCandidate (base : String) : Nat → String
  | 0 => base
  | number => base ++ toString number

/-- The first candidate that is neither reserved nor taken. Among as many
candidates as there are such prefixes and one more, there always is one. -/
def freePrefix? (taken : List (Option String)) (base : String) : Option String :=
  let excluded := Binding.reservedPrefixes.map some ++ taken
  ((List.range (excluded.length + 1)).map (prefixCandidate base)).find? fun candidate =>
    some candidate ∉ excluded

example : freePrefix? [some "p", none, some "p1"] "p" = some "p2" := by decide

example : freePrefix? [] "xml" = some "xml1" := by decide

/-- Like `AliasTable.resolve`, for the name of an attribute of the element
`out`. Where that gives a default binding, a prefixed binding of its URI in scope
is taken instead, or else one is declared on `out` under a prefix that is free
there. -/
def AliasTable.resolveAttribute (table : AliasTable) (wanted : Binding) (out : NodeId) :
    Edit (Option Handle) := do
  match ← table.resolve wanted out with
  | none => return none
  | some found =>
      let result ← get
      let binding ← result.binding found
      if binding.nsPrefix.isSome then return some found
      else
        let visible ← result.inScope out
        let prefixed := visible.find? fun declaration =>
          declaration.binding.nsPrefix.isSome && declaration.binding.uri = binding.uri
        match prefixed with
        | some declaration => return some declaration.handle
        | none =>
            let taken := visible.map (·.binding.nsPrefix)
            match freePrefix? taken (wanted.nsPrefix.getD "ns") with
            | none => return none
            | some nsPrefix => Edit.attempt (Edit.declare out (some nsPrefix) binding.uri)

end ResultTree
