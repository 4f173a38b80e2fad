import ResultTree.Diagnostic.Basic

namespace ResultTree.Diagnostic

/-! Diagnostics wait in a queue until they are flushed. A queue may stop taking
errors once it holds a number of them, and may drop what says the same about the
same node as something that it holds. For this it keeps count of the errors and
remembers what has been said, and both are always in step with what it holds. -/

/-- What a queue drops. An error limit of 0 is no limit. -/
structure Config where
  errorLimit : Nat := 50
  deduplicate : Bool := true
deriving DecidableEq, Repr

def Config.unlimited : Config := ⟨0, false⟩

abbrev Gist := Code × Option NodeId × String

def gist (diagnostic : Diagnostic) : Gist :=
  (diagnostic.code, diagnostic.primaryLabel?.map Label.node, diagnostic.message)

def line (diagnostic : Diagnostic) : Nat :=
  (diagnostic.primaryLabel?.map Label.line).getD 0

/-! Nothing holds no errors and says nothing. -/

theorem countP_isError_nil : 0 = ([] : List Diagnostic).countP Diagnostic.isError := rfl

theorem gists_nil (config : Config) :
    [] = if config.deduplicate then ([] : List Diagnostic).map gist else [] := by
  simp

/-- The diagnostics taken since the last flush, in order, how many of them are
errors and, if duplicates are dropped, what they say. -/
structure Queue where
  config : Config := {}
  entries : List Diagnostic := []
  errorCount : Nat := 0
  seen : List Gist := []
  counted : errorCount = entries.countP Diagnostic.isError := by
    exact ResultTree.Diagnostic.countP_isError_nil
  remembered : seen = if config.deduplicate then entries.map gist else [] := by
    exact ResultTree.Diagnostic.gists_nil _
deriving DecidableEq, Repr

namespace Queue

def size (queue : Queue) : Nat := queue.entries.length

def isEmpty (queue : Queue) : Bool := queue.entries.isEmpty

def hasErrors (queue : Queue) : Bool := queue.errorCount > 0

def limitReached (queue : Queue) : Bool :=
  queue.config.errorLimit > 0 && queue.errorCount ≥ queue.config.errorLimit

def drops (queue : Queue) (diagnostic : Diagnostic) : Bool :=
  (diagnostic.isError && queue.limitReached) ||
    (queue.config.deduplicate && queue.seen.contains diagnostic.gist)

def take (queue : Queue) (diagnostic : Diagnostic) : Queue where
  config := queue.config
  entries := queue.entries ++ [diagnostic]
  errorCount := if diagnostic.isError then queue.errorCount + 1 else queue.errorCount
  seen := if queue.config.deduplicate then queue.seen ++ [diagnostic.gist] else queue.seen
  counted := by
    rw [List.countP_append, List.countP_singleton, queue.counted]
    split <;> rfl
  remembered := by
    rw [queue.remembered]
    split <;> simp

@[simp] theorem config_take (queue : Queue) (diagnostic : Diagnostic) :
    (queue.take diagnostic).config = queue.config := rfl

@[simp] theorem entries_take (queue : Queue) (diagnostic : Diagnostic) :
    (queue.take diagnostic).entries = queue.entries ++ [diagnostic] := rfl

def add (queue : Queue) (diagnostic : Diagnostic) : Bool × Queue :=
  if queue.drops diagnostic then (false, queue)
  else (true, queue.take diagnostic)

/-- The same error on the same node is taken once; on another node it is another
error, unless that is one too many. -/
example :
    let first := missingKeyAttribute 1 0 "use"
    let second := missingKeyAttribute 2 0 "use"
    let queue := (add {} first).2
    (queue.add first).1 = false ∧ (queue.add second).1 = true ∧
      ((add { config := ⟨1, true⟩ } first).2.add second).1 = false := by
  decide

def addAll (queue : Queue) (diagnostics : List Diagnostic) : Queue :=
  diagnostics.foldl (fun queue diagnostic => (queue.add diagnostic).2) queue

/-- Hand everything over by line, diagnostics of one line in the order in which
they were taken. -/
def flush (queue : Queue) : List Diagnostic × Queue :=
  (queue.entries.mergeSort fun left right => left.line ≤ right.line,
    { config := queue.config })

end Queue

end ResultTree.Diagnostic
