import ResultTree.Diagnostic.Code
import ResultTree.Fault

namespace ResultTree

/-! A diagnostic explains a problem with a declaration: a code, a message, labels
that point at nodes of the stylesheet, and remarks. The first label marked
primary is where the problem lies. -/

namespace Diagnostic

inductive Severity
  | error
  | warning
  | note
deriving DecidableEq, Repr

def Severity.text : Severity → String
  | .error => "error"
  | .warning => "warning"
  | .note => "note"

/-- A node with a message. Line 0 stands for an unknown source line. -/
structure Label where
  node : NodeId
  line : Nat
  message : String
  isPrimary : Bool
deriving DecidableEq, Repr

end Diagnostic

structure Diagnostic where
  code : Diagnostic.Code
  severity : Diagnostic.Severity
  message : String := ""
  labels : List Diagnostic.Label := []
  notes : List String := []
  suggestions : List String := []
deriving DecidableEq, Repr

namespace Diagnostic

def error (code : Code) : Diagnostic := { code, severity := .error }

def warning (code : Code) : Diagnostic := { code, severity := .warning }

def withMessage (diagnostic : Diagnostic) (message : String) : Diagnostic :=
  { diagnostic with message }

def withLabel (diagnostic : Diagnostic) (node : NodeId) (line : Nat) (message : String) :
    Diagnostic :=
  { diagnostic with labels := diagnostic.labels ++ [⟨node, line, message, true⟩] }

def withSecondaryLabel (diagnostic : Diagnostic) (node : NodeId) (line : Nat)
    (message : String) : Diagnostic :=
  { diagnostic with labels := diagnostic.labels ++ [⟨node, line, message, false⟩] }

def withNote (diagnostic : Diagnostic) (note : String) : Diagnostic :=
  { diagnostic with notes := diagnostic.notes ++ [note] }

def withSuggestion (diagnostic : Diagnostic) (suggestion : String) : Diagnostic :=
  { diagnostic with suggestions := diagnostic.suggestions ++ [suggestion] }

def primaryLabel? (diagnostic : Diagnostic) : Option Label :=
  diagnostic.labels.find? Label.isPrimary

def isError (diagnostic : Diagnostic) : Bool := diagnostic.severity = .error

/-! ## The written form -/

def Label.place (label : Label) : String :=
  if label.line > 0 then "line " ++ toString label.line else label.node.text

def Label.text (label : Label) : String :=
  "\n  " ++ (if label.isPrimary then "-->" else "   ") ++ " " ++ label.place ++ ": " ++
    label.message

def text (diagnostic : Diagnostic) : String :=
  diagnostic.severity.text ++ " [" ++ diagnostic.code.text ++ "]: " ++
    diagnostic.message ++
    String.join (diagnostic.labels.map Label.text) ++
    String.join (diagnostic.notes.map ("\n  = note: " ++ ·)) ++
    String.join (diagnostic.suggestions.map ("\n  = help: " ++ ·))

/-! ## The problems that declarations have -/

def missingAliasAttribute (node : NodeId) (line : Nat) (name : String) : Diagnostic :=
  let code : Code :=
    if name = "stylesheet-prefix" then .stylesheetPrefixMissing else .resultPrefixMissing
  (error code).withMessage code.description
    |>.withLabel node line "declared here"
    |>.withNote "the alias is ignored and compilation continues"

example :
    (missingAliasAttribute 3 7 "result-prefix").text =
      "error [E0002]: namespace-alias: result-prefix attribute missing\n" ++
        "  --> line 7: declared here\n" ++
        "  = note: the alias is ignored and compilation continues" := by
  decide +kernel

def unboundPrefix (code : Code) (node : NodeId) (line : Nat) (nsPrefix : String) :
    Diagnostic :=
  (error code).withMessage ("prefix " ++ nsPrefix ++ " not bound to any namespace")
    |>.withLabel node line ("`" ++ nsPrefix ++ "` is not in scope here")
    |>.withSuggestion
      ("declare `xmlns:" ++ nsPrefix ++ "` on this element or an ancestor")

def missingKeyAttribute (node : NodeId) (line : Nat) (name : String) : Diagnostic :=
  (error .keyAttributeMissing).withMessage ("key: " ++ name ++ " attribute missing")
    |>.withLabel node line "declared here"

def invalidKeyExpression (node : NodeId) (line : Nat) (isMatch : Bool)
    (source reason : String) : Diagnostic :=
  let kind := if isMatch then "match pattern" else "use expression"
  (error (if isMatch then .keyMatchInvalid else .keyUseInvalid)).withMessage
      ("key: failed to compile " ++ kind ++ " `" ++ source ++ "`")
    |>.withLabel node line reason

def notAStylesheet (node : NodeId) (line : Nat) (found : String) : Diagnostic :=
  (error .notAStylesheet).withMessage
      ("document element `" ++ found ++ "` is not a stylesheet element")
    |>.withLabel node line "expected `stylesheet` or `transform` in the XSLT namespace"

end Diagnostic

end ResultTree
