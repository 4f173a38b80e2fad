import ResultTree.Key.Cache
import ResultTree.Stylesheet.Basic
import ResultTree.Transform.Copy

namespace ResultTree

/-! One run of a stylesheet over a source: the source stays as it is, the result
grows, and key indexes are kept for the time of the run. -/

structure Run where
  stylesheet : Stylesheet
  source : Document
  result : Document := .empty
  indexes : Key.Cache := .empty
deriving DecidableEq, Repr

namespace Run

/-- A run reads a single source, so any identity tells it apart. -/
def sourceIdentity : Key.DocumentId := 0

def start (stylesheet : Stylesheet) (source : Document) : Run := { stylesheet, source }

def edit (run : Run) (edit : Edit α) : Reading (Except Refusal α × Run) := do
  let (answer, result) ← edit.on run.result
  return (answer, { run with result })

def copyNode (run : Run) (node parent : NodeId) : Reading (Except Refusal NodeId × Run) :=
  run.edit (run.stylesheet.aliases.copyNode run.source node parent)

def copyTree (run : Run) (node parent : NodeId) : Reading (Except Refusal NodeId × Run) :=
  run.edit (run.stylesheet.aliases.copyTree run.source node parent)

def resolve (run : Run) (wanted : Binding) (out : NodeId) :
    Reading (Except Refusal (Option Handle) × Run) :=
  run.edit (run.stylesheet.aliases.resolve wanted out)

def copyDeclarations (run : Run) (out : NodeId) (bindings : List Binding) :
    Reading (Except Refusal (List Handle) × Run) :=
  run.edit (run.stylesheet.aliases.copyDeclarations out bindings)

def key (run : Run) (name : Key.Name) (value : String) : Reading (List NodeId × Run) := do
  let (nodes, indexes) ←
    run.indexes.lookup run.stylesheet.keys sourceIdentity run.source name value
  return (nodes, { run with indexes })

def releaseKeys (run : Run) : Run := { run with indexes := .empty }

def builtKeys (run : Run) : Nat := run.indexes.size

def finish (run : Run) : Document := run.result

end Run

end ResultTree
