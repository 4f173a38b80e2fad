import ResultTree.Diagnostic.Basic

namespace ResultTree

/-! A declaration that cannot be used never stops the compilation of a
stylesheet. It leaves the table that it was meant for as it is, and there is
something to report. -/

/-- What became of a declaration: whether it was accepted, the table it was meant
for, and what there is to report, in order. -/
structure Registration (τ : Type) where
  accepted : Bool
  table : τ
  diagnostics : List Diagnostic
deriving DecidableEq, Repr

namespace Registration

def rejected (table : τ) (diagnostics : List Diagnostic) : Registration τ :=
  ⟨false, table, diagnostics⟩

def accept (table : τ) (diagnostics : List Diagnostic) : Registration τ :=
  ⟨true, table, diagnostics⟩

end Registration

end ResultTree
