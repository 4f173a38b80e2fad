import ResultTree.Proofs.Key.Lexing

namespace ResultTree.Key

/-! The longest lexeme. Of the symbols that some characters start with, the longest is
the one that does not go on with what follows, and this is the one that is read. Nothing
is read only where no symbol starts. -/

/-! ## Bytes -/

@[simp] theorem byteCount_nil : byteCount [] = 0 := rfl

@[simp] theorem byteCount_cons (first : Char) (rest : List Char) :
    byteCount (first :: rest) = first.utf8Size + byteCount rest := rfl

@[simp] theorem byteCount_append (left right : List Char) :
    byteCount (left ++ right) = byteCount left + byteCount right := by
  induction left with
  | nil => simp
  | cons first rest induction => simp [induction, Nat.add_assoc]

theorem byteCount_eq_zero_iff {characters : List Char} :
    byteCount characters = 0 ↔ characters = [] := by
  cases characters with
  | nil => simp
  | cons first rest =>
      have positive := first.utf8Size_pos
      simp only [byteCount_cons, reduceCtorEq, iff_false]
      omega

theorem byteCount_ofList (characters : List Char) :
    (String.ofList characters).utf8ByteSize = byteCount characters := by
  induction characters with
  | nil => rfl
  | cons first rest induction =>
      have split : String.ofList (first :: rest) =
          String.singleton first ++ String.ofList rest := by
        rw [String.singleton_eq_ofList, ← String.ofList_append]
        rfl
      rw [split, String.utf8ByteSize_append, String.utf8ByteSize_singleton, induction]
      rfl

theorem byteCount_toList (text : String) : byteCount text.toList = text.utf8ByteSize := by
  rw [← byteCount_ofList, String.ofList_toList]

/-! ## Where symbols start -/

def Symbol.Starts (symbol : Symbol) (characters : List Char) : Prop :=
  symbol.Lexable ∧ symbol.spelling <+: characters

def Lexeme.ending (lexeme : Lexeme) : Nat := lexeme.offset + lexeme.text.utf8ByteSize

theorem Lexeme.ending_eq (lexeme : Lexeme) :
    lexeme.ending = lexeme.offset + byteCount lexeme.text.toList := by
  rw [ending, byteCount_toList]

structure Lexeme.Longest (lexeme : Lexeme) (characters : List Char) : Prop where
  starts : lexeme.symbol.Starts characters
  spelled : lexeme.text.toList = lexeme.symbol.spelling
  longest : ∀ other : Symbol, other.Starts characters →
    other.spelling.length ≤ lexeme.symbol.spelling.length

def Stops : List Char → Prop
  | [] => True
  | found :: after =>
      isBlank found = false ∧ ∀ symbol : Symbol, ¬ symbol.Starts (found :: after)

/-! ## The longest symbol -/

namespace Symbol

variable {symbol : Symbol}

theorem exists_cons_spelling (lexable : symbol.Lexable) :
    ∃ first further, symbol.spelling = first :: further ∧ isBlank first = false := by
  rcases @read?_spelling symbol lexable [] (by simp) with
    ⟨first, further, spelled, notBlank, _⟩
  exact ⟨first, further, spelled, notBlank⟩

/-- A symbol that another one is the beginning of goes on with the next character. Both
would be read there, and what is read is one thing only. -/
theorem goesOn_of_longer {longer : Symbol} (lexable : symbol.Lexable)
    (longerLexable : longer.Lexable) {next : Char} {more : List Char}
    (same : longer.spelling = symbol.spelling ++ next :: more) : symbol.GoesOn next := by
  by_contra ends
  rcases @read?_spelling symbol lexable (next :: more) (by simpa using ends) with
    ⟨first, further, spelled, _, read⟩
  rcases @read?_spelling longer longerLexable [] (by simp) with
    ⟨other, others, longerSpelled, _, longerRead⟩
  rw [longerSpelled, spelled, List.cons_append] at same
  rcases List.cons.inj same with ⟨rfl, rfl⟩
  rw [List.append_nil, read] at longerRead
  have short : further = further ++ next :: more :=
    congrArg Prod.snd (Option.some.inj longerRead)
  simp at short

theorem exists_longer_of_goesOn (lexable : symbol.Lexable) {next : Char}
    (goesOn : symbol.GoesOn next) :
    ∃ longer : Symbol, longer.Lexable ∧ longer.spelling = symbol.spelling ++ [next] := by
  cases symbol with
  | sign token =>
      cases token with
      | dot =>
          cases goesOn
          exact ⟨.sign .dotDot, by decide, rfl⟩
      | _ => cases goesOn
  | name text =>
      rcases exists_of_isName lexable with ⟨first, rest, spelled, start, parts⟩
      refine ⟨.name (String.ofList (text.toList ++ [next])), ?_, String.toList_ofList⟩
      have part : isNamePart next = true := goesOn
      simp only [Lexable, String.toList_ofList, spelled, List.cons_append, isName, start,
        Bool.true_and, List.all_append, List.all_cons, part, List.all_nil, Bool.and_true,
        List.all_eq_true]
      exact parts

/-- A symbol is the longest where it does not go on with what follows. -/
theorem longest_iff (lexable : symbol.Lexable) {rest : List Char} :
    (∀ other : Symbol, other.Starts (symbol.spelling ++ rest) →
        other.spelling.length ≤ symbol.spelling.length) ↔
      ∀ next ∈ rest.head?, ¬ symbol.GoesOn next := by
  constructor
  · intro longest next member goesOn
    rcases exists_longer_of_goesOn lexable goesOn with ⟨longer, longerLexable, spelled⟩
    rcases List.head?_eq_some_iff.mp member with ⟨after, rfl⟩
    have short := longest longer ⟨longerLexable, after, by simp [spelled]⟩
    rw [spelled, List.length_append, List.length_singleton] at short
    omega
  · rintro ends other ⟨otherLexable, starts⟩
    by_contra longer
    have shorter : symbol.spelling <+: other.spelling :=
      List.prefix_of_prefix_length_le (List.prefix_append _ _) starts (by omega)
    rcases shorter with ⟨further, spelled⟩
    cases further with
    | nil => simp [← spelled] at longer
    | cons next more =>
        rw [← spelled, List.prefix_append_right_inj] at starts
        rcases starts with ⟨after, rfl⟩
        exact ends next rfl (goesOn_of_longer lexable otherLexable spelled.symm)

end Symbol

/-! ## Reading one lexeme -/

theorem Token.read?_eq_none {first : Char} {rest : List Char}
    (nothing : Token.read? first rest = none) (other : List Char) :
    Token.read? first other = none := by
  unfold Token.read? at nothing ⊢
  split at nothing
  case h_8 => split at nothing <;> cases nothing
  case h_9 =>
    split at nothing
    · cases nothing
    · next notStart => simp_all
  all_goals cases nothing

theorem Symbol.not_starts_of_read? {first : Char} {rest : List Char}
    (nothing : Token.read? first rest = none) (symbol : Symbol) :
    ¬ symbol.Starts (first :: rest) := by
  rintro ⟨lexable, after, same⟩
  rcases @read?_spelling symbol lexable [] (by simp) with
    ⟨head, further, spelled, _, read⟩
  rw [spelled, List.cons_append] at same
  cases (List.cons.inj same).1
  rw [Token.read?_eq_none nothing] at read
  cases read

/-! ## Lexemes that are read -/

namespace Lexeme.Longest

variable {lexeme : Lexeme} {characters : List Char}

theorem exists_cons (longest : lexeme.Longest characters) :
    ∃ first further, lexeme.text.toList = first :: further ∧ isBlank first = false := by
  rw [longest.spelled]
  exact Symbol.exists_cons_spelling longest.starts.1

theorem offset_lt_ending (longest : lexeme.Longest characters) :
    lexeme.offset < lexeme.ending := by
  rcases longest.exists_cons with ⟨first, further, spelled, _⟩
  have positive := first.utf8Size_pos
  rw [ending_eq, spelled, byteCount_cons]
  omega

theorem eq_mk (longest : lexeme.Longest characters) :
    lexeme =
      ⟨lexeme.symbol.token, String.ofList lexeme.symbol.spelling, lexeme.offset⟩ := by
  have token : lexeme.symbol.token = lexeme.token := by
    unfold Lexeme.symbol
    split
    · next named => exact named.symm
    · rfl
  rw [token, ← longest.spelled, String.ofList_toList]

end Lexeme.Longest

theorem Symbol.longest_lexeme {symbol : Symbol} (lexable : symbol.Lexable)
    {rest : List Char} (ends : ∀ next ∈ rest.head?, ¬ symbol.GoesOn next) (offset : Nat) :
    Lexeme.Longest ⟨symbol.token, String.ofList symbol.spelling, offset⟩
      (symbol.spelling ++ rest) := by
  have same := Symbol.symbol_lexeme lexable offset
  constructor
  · rw [same]
    exact ⟨lexable, List.prefix_append _ _⟩
  · rw [same, String.toList_ofList]
  · rw [same]
    exact (Symbol.longest_iff lexable).mpr ends

theorem Lexeme.scan_longest {lexeme : Lexeme} {rest : List Char}
    (longest : lexeme.Longest (lexeme.text.toList ++ rest)) :
    scan lexeme.offset (lexeme.text.toList ++ rest) =
      (lexeme :: ·) <$> scan lexeme.ending rest := by
  have lexable := longest.starts.1
  have ends : ∀ next ∈ rest.head?, ¬ lexeme.symbol.GoesOn next :=
    (Symbol.longest_iff lexable).mp (longest.spelled ▸ longest.longest)
  rw [lexeme.ending_eq, longest.spelled, scan_spelling lexable ends, ← longest.eq_mk]
  cases scan (lexeme.offset + byteCount lexeme.symbol.spelling) rest <;> rfl

theorem scan_of_stops {found : Char} {after : List Char} (stops : Stops (found :: after))
    (offset : Nat) :
    Lexeme.scan offset (found :: after) = .error (.badCharacter found offset) := by
  have nothing : Token.read? found after = none := by
    apply Option.eq_none_iff_forall_ne_some.mpr
    rintro ⟨token, further⟩ read
    rcases Token.exists_symbol_of_read? read with
      ⟨symbol, rest, lexable, _, spelled, rfl, _⟩
    exact stops.2 symbol ⟨lexable, rest, by rw [spelled, List.cons_append]⟩
  rw [Lexeme.scan, stops.1, if_neg Bool.false_ne_true, nothing]

end ResultTree.Key
