import Mathlib.Data.List.Chain
import ResultTree.Proofs.Key.Derivation

namespace ResultTree.Key

/-! Writing symbols down and reading them again. A lexeme is as long as it can be, so
symbols may be run together only where the first does not go on with what follows. No two
symbols that a grammar of expressions puts side by side would run together, and blanks
between them are never needed. -/

def Token.spelling : Token → List Char
  | .pipe => ['|']
  | .slash => ['/']
  | .atSign => ['@']
  | .star => ['*']
  | .colon => [':']
  | .dotDot => ['.', '.']
  | .dot => ['.']
  | .leftParen => ['(']
  | .rightParen => [')']
  | .name => []

def isName : List Char → Bool
  | [] => false
  | first :: rest => isNameStart first && rest.all isNamePart

namespace Symbol

def token : Symbol → Token
  | .sign token => token
  | .name _ => .name

def spelling : Symbol → List Char
  | .sign token => token.spelling
  | .name text => text.toList

def Lexable : Symbol → Prop
  | .sign token => token ≠ .name
  | .name text => isName text.toList = true

instance : DecidablePred Lexable
  | .sign token => inferInstanceAs (Decidable (token ≠ .name))
  | .name text => inferInstanceAs (Decidable (isName text.toList = true))

/-- A character that follows would be taken for a part of a symbol. -/
def GoesOn : Symbol → Char → Prop
  | .sign .dot, next => next = '.'
  | .sign _, _ => False
  | .name _, next => isNamePart next = true

def Apart (left right : Symbol) : Prop :=
  ∀ next ∈ right.spelling.head?, ¬ left.GoesOn next

end Symbol

/-- How some symbols are written, with any blanks between and around them. -/
inductive Spells : List Symbol → List Char → Prop
  | done {blanks : List Char} (blank : blanks.all isBlank = true) : Spells [] blanks
  | next {symbol : Symbol} {symbols : List Symbol} {blanks rest : List Char}
      (blank : blanks.all isBlank = true) (lexable : symbol.Lexable)
      (others : Spells symbols rest) :
      Spells (symbol :: symbols) (blanks ++ symbol.spelling ++ rest)

/-! ## One lexeme -/

theorem not_blank_of_nameStart {character : Char} (start : isNameStart character = true) :
    isBlank character = false := by
  by_contra blank
  simp only [isBlank, Bool.not_eq_false, Bool.or_eq_true, decide_eq_true_eq] at blank
  rcases blank with ((rfl | rfl) | rfl) | rfl <;> simp [isNameStart] at start

theorem exists_of_isName {characters : List Char} (named : isName characters = true) :
    ∃ first rest, characters = first :: rest ∧ isNameStart first = true ∧
      ∀ character ∈ rest, isNamePart character = true := by
  cases characters with
  | nil => cases named
  | cons first rest =>
      rw [isName, Bool.and_eq_true, List.all_eq_true] at named
      exact ⟨first, rest, rfl, named⟩

theorem Token.read?_of_nameStart {first : Char} (start : isNameStart first = true)
    (rest : List Char) :
    Token.read? first rest = some (.name, rest.takeWhile isNamePart) := by
  unfold Token.read?
  split
  case h_9 => rw [if_pos start]
  all_goals exact absurd start (by decide)

theorem Symbol.read?_spelling {symbol : Symbol} (lexable : symbol.Lexable)
    {rest : List Char} (ends : ∀ next ∈ rest.head?, ¬ symbol.GoesOn next) :
    ∃ first further, symbol.spelling = first :: further ∧ isBlank first = false ∧
      Token.read? first (further ++ rest) = some (symbol.token, further) := by
  cases symbol with
  | sign token =>
      cases token with
      | dot =>
          have oneDot : rest.head? ≠ some '.' := fun another => ends '.' another rfl
          exact ⟨'.', [], rfl, by decide, if_neg oneDot⟩
      | dotDot => exact ⟨'.', ['.'], rfl, by decide, rfl⟩
      | name => exact absurd rfl lexable
      | _ => exact ⟨_, [], rfl, by decide, rfl⟩
  | name text =>
      rcases exists_of_isName lexable with ⟨first, further, spelled, start, parts⟩
      refine ⟨first, further, spelled, not_blank_of_nameStart start, ?_⟩
      have nothing : rest.takeWhile isNamePart = [] := by
        cases rest with
        | nil => rfl
        | cons next after => exact List.takeWhile_cons_of_neg (ends next rfl)
      rw [Token.read?_of_nameStart start, List.takeWhile_append_of_pos parts, nothing,
        List.append_nil]
      rfl

theorem Token.exists_symbol_of_read? {first : Char} {rest further : List Char}
    {token : Token} (read : read? first rest = some (token, further)) :
    ∃ (symbol : Symbol) (after : List Char), symbol.Lexable ∧ symbol.token = token ∧
      symbol.spelling = first :: further ∧ rest = further ++ after ∧
      ∀ next ∈ after.head?, ¬ symbol.GoesOn next := by
  unfold Token.read? at read
  split at read
  case h_8 =>
    split at read
    · next twoDots =>
        cases read
        rcases List.head?_eq_some_iff.mp twoDots with ⟨after, rfl⟩
        exact ⟨.sign .dotDot, after, by decide, rfl, rfl, rfl, fun _ _ => id⟩
    · next oneDot =>
        cases read
        refine ⟨.sign .dot, rest, by decide, rfl, rfl, rfl, fun next member goesOn => ?_⟩
        cases goesOn
        exact oneDot member
  case h_9 =>
    split at read
    · next start =>
        cases read
        refine ⟨.name (String.ofList (first :: rest.takeWhile isNamePart)),
          rest.dropWhile isNamePart, ?_, rfl, String.toList_ofList,
          List.takeWhile_append_dropWhile.symm, fun next member => ?_⟩
        · simp [Symbol.Lexable, isName, start]
        · have ends := List.head?_dropWhile_not isNamePart rest
          rw [member] at ends
          simpa [Symbol.GoesOn] using ends
    · cases read
  all_goals
    cases read
    exact ⟨.sign _, rest, by decide, rfl, rfl, rfl, fun _ _ => id⟩

theorem Symbol.symbol_lexeme {symbol : Symbol} (lexable : symbol.Lexable) (offset : Nat) :
    Lexeme.symbol ⟨symbol.token, String.ofList symbol.spelling, offset⟩ = symbol := by
  cases symbol with
  | sign token => exact if_neg lexable
  | name text => exact congrArg Symbol.name String.ofList_toList

theorem Symbol.not_goesOn_of_blank {next : Char} (blank : isBlank next = true)
    (symbol : Symbol) : ¬ symbol.GoesOn next := by
  simp only [isBlank, Bool.or_eq_true, decide_eq_true_eq] at blank
  rcases symbol with token | text
  · cases token <;> rcases blank with ((rfl | rfl) | rfl) | rfl <;> simp [GoesOn]
  · rcases blank with ((rfl | rfl) | rfl) | rfl <;> simp [GoesOn, isNamePart]

/-! ## All lexemes -/

theorem Lexeme.scan_blanks {blanks : List Char} (blank : blanks.all isBlank = true)
    (offset : Nat) (rest : List Char) :
    scan offset (blanks ++ rest) = scan (offset + byteCount blanks) rest := by
  induction blanks generalizing offset with
  | nil => rfl
  | cons first others induction =>
      rw [List.all_cons, Bool.and_eq_true] at blank
      rw [List.cons_append, scan, if_pos blank.1, induction blank.2, Nat.add_assoc]
      rfl

theorem Lexeme.scan_spelling {symbol : Symbol} (lexable : symbol.Lexable)
    {rest : List Char} (ends : ∀ next ∈ rest.head?, ¬ symbol.GoesOn next) (offset : Nat) :
    scan offset (symbol.spelling ++ rest) = do
      let after ← scan (offset + byteCount symbol.spelling) rest
      return ⟨symbol.token, String.ofList symbol.spelling, offset⟩ :: after := by
  rcases Symbol.read?_spelling lexable ends with ⟨first, further, spelled, notBlank, read⟩
  rw [spelled, List.cons_append, scan, notBlank, if_neg Bool.false_ne_true, read]
  simp only [List.drop_left]

theorem Spells.head?_cases {symbols : List Symbol} {characters : List Char}
    (spells : Spells symbols characters) :
    ∀ first ∈ characters.head?, isBlank first = true ∨
      ∃ symbol ∈ symbols.head?, first ∈ symbol.spelling.head? := by
  intro first member
  cases spells with
  | done blank =>
      exact .inl (List.all_eq_true.mp blank first (List.mem_of_mem_head? member))
  | @next symbol _ blanks rest blank lexable _ =>
      cases blanks with
      | cons head tail =>
          cases Option.some.inj member
          exact .inl (List.all_eq_true.mp blank first List.mem_cons_self)
      | nil =>
          rcases @Symbol.read?_spelling symbol lexable [] (by simp) with
            ⟨head, tail, spelled, _⟩
          rw [spelled] at member
          exact .inr ⟨symbol, rfl, spelled ▸ member⟩

/-- Symbols that keep apart are read again as they were written, whatever the blanks. -/
theorem Spells.scan {symbols : List Symbol} {characters : List Char}
    (spells : Spells symbols characters) (apart : symbols.IsChain Symbol.Apart)
    (offset : Nat) :
    ∃ lexemes, Lexeme.scan offset characters = .ok lexemes ∧
      lexemes.map Lexeme.symbol = symbols := by
  induction spells generalizing offset with
  | @done blanks blank =>
      refine ⟨[], ?_, rfl⟩
      rw [← List.append_nil blanks, Lexeme.scan_blanks blank]
      rw [Lexeme.scan]
  | @next symbol others blanks rest blank lexable spells induction =>
      rw [List.isChain_cons] at apart
      have ends : ∀ next ∈ rest.head?, ¬ symbol.GoesOn next := by
        intro next member
        rcases spells.head?_cases next member with isBlank | ⟨second, follows, begins⟩
        · exact Symbol.not_goesOn_of_blank isBlank symbol
        · exact apart.1 second follows next begins
      rcases induction apart.2
        (offset + byteCount blanks + byteCount symbol.spelling) with
        ⟨lexemes, scanned, same⟩
      refine ⟨⟨symbol.token, String.ofList symbol.spelling, offset + byteCount blanks⟩ ::
        lexemes, ?_, ?_⟩
      · rw [List.append_assoc, Lexeme.scan_blanks blank,
          Lexeme.scan_spelling lexable ends, scanned]
        rfl
      · rw [List.map_cons, Symbol.symbol_lexeme lexable, same]

theorem spells_of_lexable {symbols : List Symbol}
    (lexable : ∀ symbol ∈ symbols, symbol.Lexable) :
    Spells symbols (symbols.flatMap Symbol.spelling) := by
  induction symbols with
  | nil => exact .done rfl
  | cons symbol others induction =>
      have rest := induction fun symbol member =>
        lexable symbol (List.mem_cons_of_mem _ member)
      exact @Spells.next _ _ [] _ rfl (lexable symbol List.mem_cons_self) rest

theorem Token.lexable_of_read? {first : Char} {rest further : List Char} {token : Token}
    (read : Token.read? first rest = some (token, further)) (offset : Nat) :
    (Lexeme.symbol ⟨token, String.ofList (first :: further), offset⟩).Lexable := by
  rcases Token.exists_symbol_of_read? read with ⟨symbol, _, lexable, rfl, spelled, _⟩
  rw [← spelled, Symbol.symbol_lexeme lexable]
  exact lexable

theorem Lexeme.lexable_of_scan {offset : Nat} {characters : List Char}
    {lexemes : List Lexeme} (scanned : scan offset characters = .ok lexemes) :
    ∀ lexeme ∈ lexemes, lexeme.symbol.Lexable := by
  fun_induction scan offset characters generalizing lexemes with
  | case1 =>
      cases scanned
      simp
  | case2 offset first rest blank induction => exact induction scanned
  | case3 => cases scanned
  | case4 offset first rest notBlank token further read spelling =>
      rename_i induction
      cases after : scan (offset + byteCount spelling) (rest.drop further.length) with
      | error error =>
          rw [after] at scanned
          cases scanned
      | ok others =>
          rw [after] at scanned
          cases scanned
          intro lexeme member
          rcases List.mem_cons.mp member with rfl | member
          · exact Token.lexable_of_read? read offset
          · exact induction after lexeme member

/-! ## Derived symbols keep apart -/

theorem Symbol.apart_sign {token : Token} (dotless : token ≠ .dot ∧ token ≠ .dotDot)
    (left : Symbol) : left.Apart (.sign token) := by
  intro next begins
  cases token with
  | dot => exact absurd rfl dotless.1
  | dotDot => exact absurd rfl dotless.2
  | name => cases begins
  | _ =>
      cases Option.some.inj begins
      rcases left with other | text
      · cases other <;> simp [GoesOn]
      · simp [GoesOn, isNamePart]

theorem Symbol.sign_apart {token : Token} (notDot : token ≠ .dot) (right : Symbol) :
    (Symbol.sign token).Apart right := by
  intro next _
  cases token <;> simp_all [GoesOn]

variable {scope : PrefixScope} {symbols : List Symbol}

theorem DerivesName.isChain_apart {test : NameTest}
    (derives : DerivesName scope symbols test) :
    symbols.IsChain Symbol.Apart := by
  cases derives <;> simp [Symbol.apart_sign, Symbol.sign_apart]

theorem DerivesStep.isChain_apart {step : Step}
    (derives : DerivesStep scope symbols step) :
    symbols.IsChain Symbol.Apart := by
  cases derives with
  | name derives => exact derives.isChain_apart
  | text | node => simp [Symbol.apart_sign]

theorem DerivesUseStep.isChain_apart {step : Step}
    (derives : DerivesUseStep scope symbols step) : symbols.IsChain Symbol.Apart := by
  cases derives with
  | step derives => exact derives.isChain_apart
  | ofAttribute derives =>
      exact List.isChain_cons.mpr
        ⟨fun next _ => Symbol.sign_apart (by decide) next, derives.isChain_apart⟩
  | self | parent => exact .singleton _

theorem DerivesSeparated.isChain_apart {α : Type} {separator : Token}
    {derives : List Symbol → α → Prop} (dotless : separator ≠ .dot ∧ separator ≠ .dotDot)
    (items : ∀ {symbols item}, derives symbols item → symbols.IsChain Symbol.Apart)
    {answer : List α} (all : DerivesSeparated separator derives symbols answer) :
    symbols.IsChain Symbol.Apart := by
  induction all with
  | one first => exact items first
  | more first _ induction =>
      refine (items first).append (List.isChain_cons.mpr ⟨?_, induction⟩) ?_
      · exact fun next _ => Symbol.sign_apart dotless.1 next
      · intro last _ next member
        cases Option.some.inj member
        exact Symbol.apart_sign dotless last

theorem isChain_apart_of_derivesPattern {tree : List (List Step)}
    (derives : DerivesPattern scope symbols tree) : symbols.IsChain Symbol.Apart :=
  derives.isChain_apart (by decide)
    fun path => path.isChain_apart (by decide) DerivesStep.isChain_apart

theorem isChain_apart_of_derivesUse {tree : List Step}
    (derives : DerivesUse scope symbols tree) : symbols.IsChain Symbol.Apart :=
  derives.isChain_apart (by decide) DerivesUseStep.isChain_apart

end ResultTree.Key
