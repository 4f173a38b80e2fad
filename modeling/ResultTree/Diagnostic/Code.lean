namespace ResultTree.Diagnostic

/-! Every diagnostic of a stylesheet has a code. The letter tells errors from
warnings and the first digit names the family of declarations: 0 for namespace
aliases, 1 for keys, 9 for the stylesheet as a whole. -/

inductive Code
  | stylesheetPrefixMissing
  | resultPrefixMissing
  | aliasPrefixUnbound
  | keyAttributeMissing
  | keyNameUnbound
  | keyMatchInvalid
  | keyUseInvalid
  | notAStylesheet
  | aliasRedeclared
deriving DecidableEq, Repr

namespace Code

def all : List Code :=
  [.stylesheetPrefixMissing, .resultPrefixMissing, .aliasPrefixUnbound,
    .keyAttributeMissing,
    .keyNameUnbound, .keyMatchInvalid, .keyUseInvalid, .notAStylesheet, .aliasRedeclared]

theorem mem_all (code : Code) : code ∈ all := by cases code <;> decide

def text : Code → String
  | .stylesheetPrefixMissing => "E0001"
  | .resultPrefixMissing => "E0002"
  | .aliasPrefixUnbound => "E0003"
  | .keyAttributeMissing => "E1001"
  | .keyNameUnbound => "E1002"
  | .keyMatchInvalid => "E1003"
  | .keyUseInvalid => "E1004"
  | .notAStylesheet => "E9001"
  | .aliasRedeclared => "W0001"

def description : Code → String
  | .stylesheetPrefixMissing => "namespace-alias: stylesheet-prefix attribute missing"
  | .resultPrefixMissing => "namespace-alias: result-prefix attribute missing"
  | .aliasPrefixUnbound => "namespace-alias: prefix not bound to any namespace"
  | .keyAttributeMissing => "key: required attribute missing"
  | .keyNameUnbound => "key: name prefix not bound to any namespace"
  | .keyMatchInvalid => "key: match pattern does not compile"
  | .keyUseInvalid => "key: use expression does not compile"
  | .notAStylesheet => "document element is not a stylesheet"
  | .aliasRedeclared => "namespace-alias: alias redeclared"

def isWarning : Code → Bool
  | .aliasRedeclared => true
  | _ => false

example : all.all fun code => code.isWarning == (code.text.toList.head? == some 'W') := by
  decide

end Code

end ResultTree.Diagnostic
