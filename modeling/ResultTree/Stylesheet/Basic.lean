import ResultTree.Alias.Declaration
import ResultTree.Diagnostic.Queue
import ResultTree.Key.Declaration

namespace ResultTree

/-! A stylesheet is compiled from the top-level declarations of one or more
documents. Aliases and keys are registered; other declarations are none of this
library's business. -/

structure Stylesheet where
  aliases : AliasTable := .empty
  keys : Key.Definitions := .empty
deriving DecidableEq, Repr

structure Compilation where
  stylesheet : Stylesheet
  diagnostics : List Diagnostic
deriving DecidableEq, Repr

def Compilation.hasErrors (compilation : Compilation) : Bool :=
  compilation.diagnostics.any Diagnostic.isError

namespace Stylesheet

structure Draft where
  aliases : AliasTable := .empty
  keys : Key.Definitions := .empty
  queue : Diagnostic.Queue := {}
deriving DecidableEq, Repr

inductive DeclarationKind
  | alias
  | key
deriving DecidableEq, Repr

def DeclarationKind.of? (document : Document) (id : NodeId) :
    Reading (Option DeclarationKind) := do
  if (← document.namespaceUri? id) = some transformUri then
    match ← document.localName? id with
    | some "namespace-alias" => return some .alias
    | some "key" => return some .key
    | _ => return none
  else return none

/-- The element that holds the declarations of a document: the document element,
if it is a stylesheet. -/
def element (document : Document) : Attempt Diagnostic NodeId := do
  match ← document.documentElement? with
  | none => throw (.notAStylesheet Document.root 0 "(none)")
  | some top =>
      let uri ← document.namespaceUri? top
      let name := (← document.localName? top).getD ""
      if uri = some transformUri ∧ (name = "stylesheet" ∨ name = "transform") then
        return top
      else throw (.notAStylesheet top (← document.line top) name)

namespace Draft

def report (draft : Draft) (diagnostics : List Diagnostic) : Draft :=
  { draft with queue := draft.queue.addAll diagnostics }

def registerAlias (draft : Draft) (document : Document) (id : NodeId) :
    Reading (Bool × Draft) := do
  let ⟨accepted, aliases, diagnostics⟩ ← draft.aliases.register document id
  return (accepted, { draft with aliases }.report diagnostics)

def registerKey (draft : Draft) (document : Document) (id : NodeId) :
    Reading (Bool × Draft) := do
  let ⟨accepted, keys, diagnostics⟩ ← draft.keys.register document id
  return (accepted, { draft with keys }.report diagnostics)

def defineKey (draft : Draft) (name : Key.Name) (matchSource useSource : String)
    (scope : Key.PrefixScope) : Attempt Key.DefinitionError Draft := do
  let keys ← draft.keys.define name matchSource useSource scope
  return { draft with keys }

def addDeclaration (document : Document) (draft : Draft) (id : NodeId) :
    Reading Draft := do
  match ← DeclarationKind.of? document id with
  | some .alias => return (← draft.registerAlias document id).2
  | some .key => return (← draft.registerKey document id).2
  | none => return draft

def addDeclarations (draft : Draft) (document : Document) : Reading Draft := do
  match ← (element document).run with
  | .ok top => (← document.children top).foldlM (addDeclaration document) draft
  | .error diagnostic => return draft.report [diagnostic]

def finish (draft : Draft) : Compilation where
  stylesheet := ⟨draft.aliases, draft.keys⟩
  diagnostics := draft.queue.flush.1

end Draft

def compile (document : Document) (config : Diagnostic.Config) : Reading Compilation := do
  let draft ← Draft.addDeclarations { queue := { config } } document
  return draft.finish

end Stylesheet

end ResultTree
