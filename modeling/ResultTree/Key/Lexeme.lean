namespace ResultTree.Key

/-! Match patterns and use expressions are written with ten signs and with
names. Lexemes are read from left to right, each as long as it can be; blanks
may stand between any two and mean nothing. -/

inductive Token
  | pipe
  | slash
  | atSign
  | star
  | colon
  | dotDot
  | dot
  | leftParen
  | rightParen
  | name
deriving DecidableEq, Repr

/-- A token with its spelling and the byte at which it starts. -/
structure Lexeme where
  token : Token
  text : String
  offset : Nat
deriving DecidableEq, Repr

def Token.describe : Token → String
  | .pipe => "`|`"
  | .slash => "`/`"
  | .atSign => "`@`"
  | .star => "`*`"
  | .colon => "`:`"
  | .dotDot => "`..`"
  | .dot => "`.`"
  | .leftParen => "`(`"
  | .rightParen => "`)`"
  | .name => "a name"

inductive Expected
  | step
  | patternStep
  | name
  | localName
  | rightParen
  | ending
deriving DecidableEq, Repr

def Expected.describe : Expected → String
  | .step => "a step"
  | .patternStep => "a pattern step"
  | .name => "a name or `*`"
  | .localName => "a local name or `*`"
  | .rightParen => "`)`"
  | .ending => "end of expression"

/-- Why a text is not an expression. Offsets count bytes. -/
inductive SyntaxError
  | badCharacter (found : Char) (offset : Nat)
  | unexpected (found : Token) (offset : Nat) (expected : Expected)
  | unexpectedEnd (expected : Expected)
  | notInPattern (found : Token) (offset : Nat)
  | unknownNodeTest (name : String) (offset : Nat)
  | unboundPrefix (nsPrefix : String) (offset : Nat)
deriving DecidableEq, Repr

def SyntaxError.message : SyntaxError → String
  | .badCharacter found offset =>
      "unexpected `" ++ String.singleton found ++ "` at offset " ++ toString offset
  | .unexpected found offset expected =>
      "unexpected " ++ found.describe ++ " at offset " ++ toString offset ++
        ", expected " ++
        expected.describe
  | .unexpectedEnd expected =>
      "unexpected end of expression, expected " ++ expected.describe
  | .notInPattern found offset =>
      found.describe ++ " at offset " ++ toString offset ++
        " is not allowed in a match pattern"
  | .unknownNodeTest name offset =>
      "unknown node test `" ++ name ++ "()` at offset " ++ toString offset
  | .unboundPrefix nsPrefix offset =>
      "prefix `" ++ nsPrefix ++ "` at offset " ++ toString offset ++
        " is not bound to any namespace"

def isBlank (character : Char) : Bool :=
  character = ' ' || character = '\t' || character = '\r' || character = '\n'

/-- Names are made of ASCII characters only. -/
def isNameStart (character : Char) : Bool := character.isAlpha || character = '_'

def isNamePart (character : Char) : Bool :=
  character.isAlphanum || character = '_' || character = '.' || character = '-'

/-- The longest token that starts with a character: the token, and the
characters after the first that belong to it. -/
def Token.read? (first : Char) (rest : List Char) : Option (Token × List Char) :=
  match first with
  | '|' => some (.pipe, [])
  | '/' => some (.slash, [])
  | '@' => some (.atSign, [])
  | '*' => some (.star, [])
  | ':' => some (.colon, [])
  | '(' => some (.leftParen, [])
  | ')' => some (.rightParen, [])
  | '.' => if rest.head? = some '.' then some (.dotDot, ['.']) else some (.dot, [])
  | _ => if isNameStart first then some (.name, rest.takeWhile isNamePart) else none

def byteCount (characters : List Char) : Nat :=
  characters.foldr (fun character after => character.utf8Size + after) 0

def Lexeme.scan (offset : Nat) : List Char → Except SyntaxError (List Lexeme)
  | [] => .ok []
  | first :: rest =>
      if isBlank first then scan (offset + first.utf8Size) rest
      else
        match Token.read? first rest with
        | none => .error (.badCharacter first offset)
        | some (token, further) => do
            let spelling := first :: further
            let after ← scan (offset + byteCount spelling) (rest.drop further.length)
            return ⟨token, String.ofList spelling, offset⟩ :: after
termination_by source => source.length
decreasing_by all_goals simp; try omega

def tokenize (source : String) : Except SyntaxError (List Lexeme) :=
  Lexeme.scan 0 source.toList

/-- A name takes all it can, dots included; a byte offset is not a count of
characters. -/
example :
    (tokenize "p:a.b-1 | ..").toOption =
      some [⟨.name, "p", 0⟩, ⟨.colon, ":", 1⟩, ⟨.name, "a.b-1", 2⟩, ⟨.pipe, "|", 8⟩,
        ⟨.dotDot, "..", 10⟩] := by
  decide +kernel

end ResultTree.Key
