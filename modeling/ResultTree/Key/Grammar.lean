import ResultTree.Key.Lexeme
import ResultTree.Key.Expression
import ResultTree.Document.Scope

namespace ResultTree.Key

/-! Reading expressions. A pattern is one or more paths with `|` between them, a
path one or more steps with `/` between them. A step is a name test, `text()` or
`node()`; a use expression is a single path, in which `@` with a name test, `.`
and `..` are steps as well. A name test is `*`, a name, or a prefix with `:` and
either of these, and the prefix has to be bound.

Every reader looks at the lexemes from some place on and answers with what it
read and with the number of lexemes that took. -/

abbrev PrefixScope := String → Reading (Option String)

namespace PrefixScope

/-- Only the listed prefixes are bound, `xml` not excepted. -/
def ofList (bindings : List (String × String)) : PrefixScope :=
  fun nsPrefix => pure (bindings.lookup nsPrefix)

def ofNode (document : Document) (id : NodeId) : PrefixScope := fun nsPrefix => do
  document.uri? (← document.findPrefix id (some nsPrefix))

end PrefixScope

abbrev Parse := Attempt SyntaxError

def Expected.missing (expected : Expected) : List Lexeme → SyntaxError
  | [] => .unexpectedEnd expected
  | lexeme :: _ => .unexpected lexeme.token lexeme.offset expected

def NameTest.read (scope : PrefixScope) : List Lexeme → Parse (NameTest × Nat)
  | ⟨.star, _, _⟩ :: _ => return (.any, 1)
  | ⟨.name, nsPrefix, offset⟩ :: ⟨.colon, _, _⟩ :: rest => do
      match ← scope nsPrefix with
      | none => throw (.unboundPrefix nsPrefix offset)
      | some uri =>
          match rest with
          | ⟨.star, _, _⟩ :: _ => return (.inNamespace uri, 3)
          | ⟨.name, localName, _⟩ :: _ => return (.named (some uri) localName, 3)
          | other => throw (Expected.localName.missing other)
  | ⟨.name, localName, _⟩ :: _ => return (.named none localName, 1)
  | other => throw (Expected.name.missing other)

def NodeTest.ofCall? : String → Option NodeTest
  | "text" => some .text
  | "node" => some .anyNode
  | _ => none

/-- A test on a child; `expected` says what it is called if there is none. -/
def NodeTest.read (scope : PrefixScope) (expected : Expected) :
    List Lexeme → Parse (NodeTest × Nat)
  | ⟨.name, name, offset⟩ :: ⟨.leftParen, _, _⟩ :: rest =>
      match ofCall? name, rest with
      | none, _ => throw (.unknownNodeTest name offset)
      | some test, ⟨.rightParen, _, _⟩ :: _ => return (test, 3)
      | some _, other => throw (Expected.rightParen.missing other)
  | lexemes@(⟨.name, _, _⟩ :: _) => do
      let (test, used) ← NameTest.read scope lexemes
      return (.ofName test, used)
  | ⟨.star, _, _⟩ :: _ => return (.ofName .any, 1)
  | other => throw (expected.missing other)

def Pattern.readStep (scope : PrefixScope) (lexemes : List Lexeme) :
    Parse (NodeTest × Nat) :=
  match lexemes with
  | ⟨.dot, _, offset⟩ :: _ => throw (.notInPattern .dot offset)
  | ⟨.dotDot, _, offset⟩ :: _ => throw (.notInPattern .dotDot offset)
  | ⟨.atSign, _, offset⟩ :: _ => throw (.notInPattern .atSign offset)
  | _ => NodeTest.read scope .patternStep lexemes

def Step.read (scope : PrefixScope) (lexemes : List Lexeme) : Parse (Step × Nat) :=
  match lexemes with
  | ⟨.dot, _, _⟩ :: _ => return (.self, 1)
  | ⟨.dotDot, _, _⟩ :: _ => return (.parent, 1)
  | ⟨.atSign, _, _⟩ :: rest => do
      let (test, used) ← NameTest.read scope rest
      return (.attribute test, used + 1)
  | _ => do
      let (test, used) ← NodeTest.read scope .step lexemes
      return (.child test, used)

def readSeparated (separator : Token) (item : List Lexeme → Parse (α × Nat))
    (lexemes : List Lexeme) : Parse (List α × Nat) := do
  let (first, used) ← item lexemes
  match _ : lexemes.drop used with
  | [] => return ([first], used)
  | next :: after =>
      if next.token = separator then
        let (others, further) ← readSeparated separator item after
        return (first :: others, used + 1 + further)
      else return ([first], used)
termination_by lexemes.length
decreasing_by
  have shorter := congrArg List.length ‹lexemes.drop _ = _›
  simp only [List.length_drop, List.length_cons] at shorter
  omega

def readWhole (read : List Lexeme → Parse (α × Nat)) (source : String) : Parse α := do
  let lexemes ← tokenize source
  let (result, used) ← read lexemes
  match lexemes.drop used with
  | [] => return result
  | other => throw (Expected.ending.missing other)

def Pattern.parse (source : String) (scope : PrefixScope) : Parse Pattern :=
  Pattern.mk <$>
    readWhole (readSeparated .pipe (readSeparated .slash (readStep scope))) source

def UseExpression.parse (source : String) (scope : PrefixScope) : Parse UseExpression :=
  UseExpression.mk <$> readWhole (readSeparated .slash (Step.read scope)) source

end ResultTree.Key
