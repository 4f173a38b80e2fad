import ResultTree.Proofs.Key.Longest

namespace ResultTree.Key

/-! Lexemes tile their source: each is the longest that starts at its byte, none overlap,
and only blanks are left between them. A text is tiled up to its end, or up to a
character that no lexeme starts with, and what tiles it is what is read. -/

/-! ## What tiling is -/

namespace Lexeme

def Covers (lexeme : Lexeme) (byte : Nat) : Prop :=
  lexeme.offset ≤ byte ∧ byte < lexeme.ending

/-- The text of a lexeme is found at its byte, as the longest there. The characters
begin at an offset, and others follow them. -/
def Stands (lexeme : Lexeme) (offset : Nat) (characters following : List Char) : Prop :=
  ∃ before after, characters = before ++ lexeme.text.toList ++ after ∧
    lexeme.offset = offset + byteCount before ∧
    lexeme.Longest (lexeme.text.toList ++ after ++ following)

end Lexeme

def Filled (offset : Nat) (characters : List Char) (lexemes : List Lexeme) : Prop :=
  ∀ before character after, characters = before ++ character :: after →
    isBlank character = true ∨
    ∃ lexeme ∈ lexemes, lexeme.Covers (offset + byteCount before)

/-- Lexemes tile some characters, which begin at an offset and are followed by
others. -/
structure Tiles (offset : Nat) (characters following : List Char)
    (lexemes : List Lexeme) : Prop where
  increasing : lexemes.Pairwise fun left right => left.offset < right.offset
  apart : lexemes.Pairwise fun left right => left.ending ≤ right.offset
  stands : ∀ lexeme ∈ lexemes, lexeme.Stands offset characters following
  gaps : Filled offset characters lexemes

/-! ## Lexemes and blanks at their bytes -/

namespace Lexeme

variable {lexeme : Lexeme} {offset : Nat} {rest characters following : List Char}

theorem Stands.offset_le (stands : lexeme.Stands offset characters following) :
    offset ≤ lexeme.offset := by
  rcases stands with ⟨before, _, _, place, _⟩
  omega

theorem Stands.prepend (front : List Char)
    (stands : lexeme.Stands (offset + byteCount front) rest following) :
    lexeme.Stands offset (front ++ rest) following := by
  rcases stands with ⟨before, after, rfl, place, longest⟩
  refine ⟨front ++ before, after, by simp, ?_, longest⟩
  rw [place, byteCount_append, Nat.add_assoc]

theorem Stands.drop (front : List Char)
    (stands : lexeme.Stands offset (front ++ rest) following)
    (later : offset + byteCount front ≤ lexeme.offset) :
    lexeme.Stands (offset + byteCount front) rest following := by
  rcases stands with ⟨before, after, split, place, longest⟩
  rw [List.append_assoc] at split
  rcases List.append_eq_append_iff.mp split with ⟨inner, rfl, rfl⟩ | ⟨inner, rfl, same⟩
  · refine ⟨inner, after, by simp, ?_, longest⟩
    rw [place, byteCount_append, Nat.add_assoc]
  · rw [byteCount_append] at later
    have nothing : inner = [] := byteCount_eq_zero_iff.mp (by omega)
    subst nothing
    refine ⟨[], after, by simpa using same.symm, by simpa using place, longest⟩

end Lexeme

section

variable {offset : Nat} {rest characters following : List Char} {lexemes : List Lexeme}

theorem filled_nil : Filled offset [] lexemes := by
  intro before character after split
  simp at split

theorem filled_append_iff (front : List Char) :
    Filled offset (front ++ rest) lexemes ↔
      Filled offset front lexemes ∧ Filled (offset + byteCount front) rest lexemes := by
  constructor
  · intro filled
    constructor
    · rintro before character after rfl
      exact filled before character (after ++ rest) (by simp)
    · rintro before character after rfl
      have here := filled (front ++ before) character after (by simp)
      rwa [byteCount_append, ← Nat.add_assoc] at here
  · rintro ⟨filledFront, filledRest⟩ before character after split
    rcases List.append_eq_append_iff.mp split with ⟨inner, rfl, rfl⟩ | ⟨inner, rfl, same⟩
    · rw [byteCount_append, ← Nat.add_assoc]
      exact filledRest inner character after rfl
    · cases inner with
      | nil =>
          rw [List.nil_append] at same
          rw [List.append_nil] at filledRest
          have here := filledRest [] character after same.symm
          rwa [byteCount_nil] at here
      | cons head inner =>
          cases (List.cons.inj same).1
          exact filledFront before character inner rfl

theorem Filled.mono {more : List Lexeme} (filled : Filled offset characters lexemes)
    (subset : lexemes ⊆ more) : Filled offset characters more := by
  intro before character after split
  rcases filled before character after split with blank | ⟨lexeme, member, covers⟩
  · exact .inl blank
  · exact .inr ⟨lexeme, subset member, covers⟩

theorem filled_text {lexeme : Lexeme} (member : lexeme ∈ lexemes) :
    Filled lexeme.offset lexeme.text.toList lexemes := by
  intro before character after split
  refine .inr ⟨lexeme, member, by omega, ?_⟩
  have positive := character.utf8Size_pos
  rw [Lexeme.ending_eq, split, byteCount_append, byteCount_cons]
  omega

/-! ## Tilings, lexeme by lexeme -/

theorem tiles_nil_iff : Tiles offset [] following lexemes ↔ lexemes = [] := by
  constructor
  · intro tiles
    apply List.eq_nil_iff_forall_not_mem.mpr
    intro lexeme member
    rcases tiles.stands lexeme member with ⟨before, after, split, _, longest⟩
    rcases longest.exists_cons with ⟨first, further, spelled, _⟩
    simp [spelled] at split
  · rintro rfl
    exact ⟨.nil, .nil, by simp, filled_nil⟩

theorem tiles_blank_iff {first : Char} (blank : isBlank first = true) :
    Tiles offset (first :: rest) following lexemes ↔
      Tiles (offset + first.utf8Size) rest following lexemes := by
  constructor
  · intro tiles
    refine ⟨tiles.increasing, tiles.apart, fun lexeme member => ?_, ?_⟩
    · have stands := tiles.stands lexeme member
      refine Lexeme.Stands.drop [first] stands ?_
      rcases stands with ⟨before, after, split, place, longest⟩
      rcases longest.exists_cons with ⟨head, further, spelled, notBlank⟩
      cases before with
      | nil =>
          rw [spelled] at split
          cases (List.cons.inj split).1
          cases notBlank.symm.trans blank
      | cons other before =>
          cases (List.cons.inj split).1
          rw [place, byteCount_cons, byteCount_cons, byteCount_nil]
          omega
    · exact ((filled_append_iff [first]).mp tiles.gaps).2
  · intro tiles
    refine ⟨tiles.increasing, tiles.apart, fun lexeme member => ?_, ?_⟩
    · exact Lexeme.Stands.prepend [first] (tiles.stands lexeme member)
    · refine (filled_append_iff [first]).mpr ⟨?_, tiles.gaps⟩
      intro before character after split
      cases before with
      | nil =>
          cases (List.cons.inj split).1
          exact .inl blank
      | cons other before => simp at split

theorem Tiles.cons {lexeme : Lexeme} (tiles : Tiles lexeme.ending rest following lexemes)
    (longest : lexeme.Longest (lexeme.text.toList ++ rest ++ following)) :
    Tiles lexeme.offset (lexeme.text.toList ++ rest) following (lexeme :: lexemes) where
  increasing := by
    refine List.pairwise_cons.mpr ⟨fun other member => ?_, tiles.increasing⟩
    exact longest.offset_lt_ending.trans_le (tiles.stands other member).offset_le
  apart := List.pairwise_cons.mpr
    ⟨fun other member => (tiles.stands other member).offset_le, tiles.apart⟩
  stands := by
    intro other member
    rcases List.mem_cons.mp member with rfl | member
    · exact ⟨[], rest, rfl, rfl, longest⟩
    · have stands := tiles.stands other member
      rw [lexeme.ending_eq] at stands
      exact stands.prepend lexeme.text.toList
  gaps := by
    refine (filled_append_iff lexeme.text.toList).mpr ⟨filled_text List.mem_cons_self, ?_⟩
    rw [← lexeme.ending_eq]
    exact tiles.gaps.mono (List.subset_cons_self _ _)

theorem Tiles.uncons {first : Char}
    (tiles : Tiles offset (first :: rest) following lexemes)
    (notBlank : isBlank first = false) :
    ∃ lexeme others after, lexemes = lexeme :: others ∧ lexeme.offset = offset ∧
      first :: rest = lexeme.text.toList ++ after ∧
      lexeme.Longest (lexeme.text.toList ++ after ++ following) ∧
      Tiles lexeme.ending after following others := by
  rcases tiles.gaps [] first rest rfl with blank | ⟨lexeme, member, covers⟩
  · cases notBlank.symm.trans blank
  · have begins : lexeme.offset = offset :=
      Nat.le_antisymm covers.1 (tiles.stands lexeme member).offset_le
    rcases tiles.stands lexeme member with ⟨before, after, split, place, longest⟩
    have nothing : before = [] := byteCount_eq_zero_iff.mp (by omega)
    subst nothing
    rw [List.nil_append] at split
    rcases tiles with ⟨increasing, apart, stands, gaps⟩
    cases lexemes with
    | nil => cases member
    | cons head others =>
        rw [List.pairwise_cons] at increasing apart
        -- A lexeme before this one would begin before the characters do.
        have same : lexeme = head := by
          rcases List.mem_cons.mp member with same | member
          · exact same
          · have early := increasing.1 lexeme member
            have late := (stands head List.mem_cons_self).offset_le
            omega
        subst same
        refine ⟨lexeme, others, after, rfl, begins, split, longest,
          increasing.2, apart.2, fun other otherMember => ?_, ?_⟩
        · have otherStands := stands other (List.mem_cons_of_mem _ otherMember)
          rw [split] at otherStands
          rw [lexeme.ending_eq, begins]
          apply otherStands.drop lexeme.text.toList
          rw [← begins, ← lexeme.ending_eq]
          exact apart.1 other otherMember
        · rw [split, filled_append_iff] at gaps
          intro before character rest split
          rcases gaps.2 before character rest split with
            blank | ⟨other, otherMember, covers⟩
          · exact .inl blank
          · rw [← begins, ← lexeme.ending_eq] at covers
            rcases List.mem_cons.mp otherMember with rfl | otherMember
            · have outside := covers.2
              omega
            · exact .inr ⟨other, otherMember, covers⟩

end

/-! ## Reading all lexemes -/

variable {offset : Nat} {characters following : List Char} {lexemes : List Lexeme}

theorem Tiles.scan (tiles : Tiles offset characters following lexemes) :
    Lexeme.scan offset (characters ++ following) =
      (lexemes ++ ·) <$> Lexeme.scan (offset + byteCount characters) following := by
  -- By the number of characters, of which a lexeme takes more than one.
  induction size : characters.length using Nat.strongRecOn
    generalizing offset characters lexemes with
  | ind size induction =>
      subst size
      cases characters with
      | nil =>
          rw [tiles_nil_iff.mp tiles]
          simp
      | cons first rest =>
          by_cases blank : isBlank first = true
          · have read :=
              induction rest.length (by simp) ((tiles_blank_iff blank).mp tiles) rfl
            rw [List.cons_append, Lexeme.scan, if_pos blank, read, byteCount_cons,
              Nat.add_assoc]
          · rcases tiles.uncons (by simpa using blank) with
              ⟨lexeme, others, after, rfl, rfl, split, longest, tilesAfter⟩
            rcases longest.exists_cons with ⟨head, further, spelled, _⟩
            have shorter : after.length < (first :: rest).length := by
              rw [split, spelled, List.length_append, List.length_cons]
              omega
            have read := induction after.length shorter tilesAfter rfl
            rw [List.append_assoc] at longest
            rw [split, List.append_assoc, Lexeme.scan_longest longest, read,
              byteCount_append, ← Nat.add_assoc, ← lexeme.ending_eq, Functor.map_map]
            rfl

theorem Tiles.scan_eq_ok (tiles : Tiles offset characters [] lexemes) :
    Lexeme.scan offset characters = .ok lexemes := by
  have scanned := tiles.scan
  rw [List.append_nil, Lexeme.scan] at scanned
  rw [scanned]
  exact congrArg Except.ok (List.append_nil lexemes)

theorem Tiles.scan_eq_error {found : Char} {after : List Char}
    (tiles : Tiles offset characters (found :: after) lexemes)
    (stops : Stops (found :: after)) :
    Lexeme.scan offset (characters ++ found :: after) =
      .error (.badCharacter found (offset + byteCount characters)) := by
  rw [tiles.scan, scan_of_stops stops]
  rfl

/-- Every text is tiled up to its end, or to a character that is no blank and that no
lexeme starts with. -/
theorem exists_tiles (offset : Nat) (characters : List Char) :
    ∃ before following lexemes, characters = before ++ following ∧
      Tiles offset before following lexemes ∧ Stops following := by
  induction size : characters.length using Nat.strongRecOn
    generalizing offset characters with
  | ind size induction =>
      subst size
      cases characters with
      | nil => exact ⟨[], [], [], rfl, tiles_nil_iff.mpr rfl, trivial⟩
      | cons first rest =>
          by_cases blank : isBlank first = true
          · rcases induction rest.length (by simp) (offset + first.utf8Size) rest rfl with
              ⟨before, following, lexemes, rfl, tiles, stops⟩
            exact ⟨first :: before, following, lexemes, rfl,
              (tiles_blank_iff blank).mpr tiles, stops⟩
          · cases read : Token.read? first rest with
            | none =>
                exact ⟨[], first :: rest, [], rfl,
                  tiles_nil_iff.mpr rfl, by simpa using blank,
                  Symbol.not_starts_of_read? read⟩
            | some found =>
                rcases Token.exists_symbol_of_read? read with
                  ⟨symbol, after, lexable, token, spelled, rfl, ends⟩
                let lexeme : Lexeme :=
                  ⟨symbol.token, String.ofList symbol.spelling, offset⟩
                have shorter : after.length < (first :: (found.2 ++ after)).length := by
                  rw [List.length_cons, List.length_append]
                  omega
                rcases induction after.length shorter lexeme.ending after rfl with
                  ⟨before, following, lexemes, rfl, tiles, stops⟩
                have text : lexeme.text.toList = symbol.spelling := String.toList_ofList
                refine ⟨lexeme.text.toList ++ before, following, lexeme :: lexemes, ?_,
                  tiles.cons ?_, stops⟩
                · rw [text, spelled]
                  simp
                · rw [text, List.append_assoc]
                  exact Symbol.longest_lexeme lexable ends offset

theorem Lexeme.scan_eq_ok_iff :
    scan offset characters = .ok lexemes ↔ Tiles offset characters [] lexemes := by
  refine ⟨fun scanned => ?_, Tiles.scan_eq_ok⟩
  rcases exists_tiles offset characters with ⟨before, following, read, rfl, tiles, stops⟩
  cases following with
  | nil =>
      rw [List.append_nil] at scanned ⊢
      cases tiles.scan_eq_ok.symm.trans scanned
      exact tiles
  | cons found after => cases (tiles.scan_eq_error stops).symm.trans scanned

theorem Lexeme.scan_eq_error_iff {error : SyntaxError} :
    scan offset characters = .error error ↔
      ∃ before found after lexemes, characters = before ++ found :: after ∧
        error = .badCharacter found (offset + byteCount before) ∧
        Tiles offset before (found :: after) lexemes ∧ Stops (found :: after) := by
  constructor
  · intro scanned
    rcases exists_tiles offset characters with
      ⟨before, following, lexemes, rfl, tiles, stops⟩
    cases following with
    | nil =>
        rw [List.append_nil] at scanned
        cases tiles.scan_eq_ok.symm.trans scanned
    | cons found after =>
        cases (tiles.scan_eq_error stops).symm.trans scanned
        exact ⟨before, found, after, lexemes, rfl, rfl, tiles, stops⟩
  · rintro ⟨before, found, after, lexemes, rfl, rfl, tiles, stops⟩
    exact tiles.scan_eq_error stops

/-- What may stand inside a name need not start one. -/
example : tokenize "a-1/1" = .error (.badCharacter '1' 4) := by decide +kernel

/-! ## Texts of lexemes, read again -/

def Grammatical (symbols : List Symbol) : Prop :=
  ∃ scope, (∃ tree, DerivesPattern scope symbols tree) ∨
    ∃ tree, DerivesUse scope symbols tree

theorem Grammatical.isChain_apart {symbols : List Symbol}
    (grammatical : Grammatical symbols) :
    symbols.IsChain Symbol.Apart := by
  rcases grammatical with ⟨scope, ⟨tree, derives⟩ | ⟨tree, derives⟩⟩
  · exact isChain_apart_of_derivesPattern derives
  · exact isChain_apart_of_derivesUse derives

theorem Tiles.longest (tiles : Tiles offset characters following lexemes) :
    ∀ lexeme ∈ lexemes, ∃ others, lexeme.Longest others := by
  intro lexeme member
  rcases tiles.stands lexeme member with ⟨_, _, _, _, longest⟩
  exact ⟨_, longest⟩

theorem map_written
    (longest : ∀ lexeme ∈ lexemes, ∃ characters, lexeme.Longest characters) :
    lexemes.map (fun lexeme => (lexeme.token, lexeme.text)) =
      (lexemes.map Lexeme.symbol).map fun symbol =>
        (symbol.token, String.ofList symbol.spelling) := by
  rw [List.map_map]
  apply List.map_congr_left
  intro lexeme member
  rcases longest lexeme member with ⟨_, longest⟩
  rw [longest.eq_mk]
  simp [Symbol.symbol_lexeme longest.starts.1]

theorem spells_join {gaps : List String} {last : String}
    (longest : ∀ lexeme ∈ lexemes, ∃ characters, lexeme.Longest characters)
    (length : gaps.length = lexemes.length)
    (blank : ∀ gap ∈ last :: gaps, gap.toList.all isBlank = true) :
    Spells (lexemes.map Lexeme.symbol)
      (String.join (List.zipWith (· ++ ·) gaps (lexemes.map Lexeme.text)) ++
        last).toList := by
  induction lexemes generalizing gaps with
  | nil =>
      cases List.eq_nil_of_length_eq_zero length
      exact .done (by simpa using blank last List.mem_cons_self)
  | cons lexeme others induction =>
      cases gaps with
      | nil => cases length
      | cons gap gaps =>
          rcases longest lexeme List.mem_cons_self with ⟨_, longestFirst⟩
          have rest :=
            induction (fun other member => longest other (List.mem_cons_of_mem _ member))
              (Nat.succ.inj length) fun other member =>
                blank other
                  (List.cons_subset_cons last (List.subset_cons_self gap gaps) member)
          have spells := Spells.next (blank gap (by simp)) longestFirst.starts.1 rest
          rw [← longestFirst.spelled] at spells
          simpa [List.append_assoc] using spells

/-- Lexemes are read from a source exactly where they tile it, and reading fails exactly
where a tiling ends before a character that is no blank and that no lexeme starts with.
The lexemes of an expression are read again from their texts, with any blanks between
them. -/
theorem tokenize_tiles (source : String) :
    (∀ lexemes, tokenize source = .ok lexemes ↔ Tiles 0 source.toList [] lexemes) ∧
      (∀ error, tokenize source = .error error ↔
        ∃ before found after lexemes, source.toList = before ++ found :: after ∧
          error = .badCharacter found (byteCount before) ∧
          Tiles 0 before (found :: after) lexemes ∧ Stops (found :: after)) ∧
      ∀ lexemes, tokenize source = .ok lexemes → Grammatical (lexemes.map Lexeme.symbol) →
        ∀ gaps last, gaps.length = lexemes.length →
          (∀ gap ∈ last :: gaps, gap.toList.all isBlank = true) →
          ∃ others,
            tokenize (String.join
              (List.zipWith (· ++ ·) gaps (lexemes.map Lexeme.text)) ++ last) =
              .ok others ∧
            others.map (fun lexeme => (lexeme.token, lexeme.text)) =
              lexemes.map (fun lexeme => (lexeme.token, lexeme.text)) := by
  refine ⟨fun lexemes => Lexeme.scan_eq_ok_iff, fun error => ?_, ?_⟩
  · have failed := @Lexeme.scan_eq_error_iff 0 source.toList error
    simp only [Nat.zero_add] at failed
    exact failed
  · intro lexemes tokenized grammatical gaps last length blank
    have tiles := Lexeme.scan_eq_ok_iff.mp tokenized
    have spells := spells_join tiles.longest length blank
    rcases spells.scan grammatical.isChain_apart 0 with ⟨others, scanned, same⟩
    refine ⟨others, scanned, ?_⟩
    have tilesAgain := Lexeme.scan_eq_ok_iff.mp scanned
    rw [map_written tiles.longest, map_written tilesAgain.longest, same]

theorem tokenize_tiles_dottedName :
    tokenize "./a../.." = .ok [⟨.dot, ".", 0⟩, ⟨.slash, "/", 1⟩, ⟨.name, "a..", 2⟩,
        ⟨.slash, "/", 5⟩, ⟨.dotDot, "..", 6⟩] ∧
      Grammatical [.sign .dot, .sign .slash, .name "a..", .sign .slash, .sign .dotDot] ∧
      ∃ others, tokenize " . /\n a.. /..\t" = .ok others ∧
        others.map (fun lexeme => (lexeme.token, lexeme.text)) =
          [(.dot, "."), (.slash, "/"), (.name, "a.."), (.slash, "/"),
            (.dotDot, "..")] := by
  have tokenized : tokenize "./a../.." = .ok [⟨.dot, ".", 0⟩, ⟨.slash, "/", 1⟩,
      ⟨.name, "a..", 2⟩, ⟨.slash, "/", 5⟩, ⟨.dotDot, "..", 6⟩] := by decide +kernel
  have derives : DerivesUse (.ofList []) _ _ :=
    .more .self (.more (.step (.name (.name "a.."))) (.one .parent))
  have grammatical :
      Grammatical [.sign .dot, .sign .slash, .name "a..", .sign .slash, .sign .dotDot] :=
    ⟨.ofList [], .inr ⟨_, derives⟩⟩
  exact ⟨tokenized, grammatical, (tokenize_tiles "./a../..").2.2 _ tokenized grammatical
    [" ", " ", "\n ", " ", ""] "\t" rfl (by decide)⟩

end ResultTree.Key
