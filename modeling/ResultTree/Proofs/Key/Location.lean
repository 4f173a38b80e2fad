import ResultTree.Proofs.Key.Complaint

namespace ResultTree

theorem Attempt.map_eq_refusal_iff {α β ε : Type} {change : α → β} {attempt : Attempt ε α}
    {refusal : ε} :
    (change <$> attempt).run = .ok (.error refusal) ↔
      attempt.run = .ok (.error refusal) := by
  rw [ExceptT.run_map]
  rcases attempt.run with _ | _ | first <;> simp

namespace Key

/-! Where parsing complains. A complaint with an offset names the first lexeme that
nothing goes on with: what comes before it opens some expression that is accepted, and
with the lexeme after that it opens none. A complaint about the end comes where an
expression has been opened but not ended. -/

variable {α β : Type}

def Opens (parse : String → Parse α) (symbols : List Symbol) : Prop :=
  ∃ source lexemes answer, tokenize source = .ok lexemes ∧
    (parse source).run = .ok (.ok answer) ∧ symbols <+: lexemes.map Lexeme.symbol

/-- Each complaint is about the first lexeme that nothing goes on with, or about the end
of what more could be added to. -/
structure Locates (parse : String → Parse α) : Prop where
  lexeme : ∀ source lexemes error offset, tokenize source = .ok lexemes →
    (parse source).run = .ok (.error error) → error.offset? = some offset →
    ∃ front lexeme back, lexemes = front ++ lexeme :: back ∧ lexeme.offset = offset ∧
      error.Tells lexeme ∧ error.further <+: back.map Lexeme.symbol ∧
      Opens parse (front.map Lexeme.symbol) ∧
      ¬ Opens parse (front.map Lexeme.symbol ++ lexeme.symbol :: error.further)
  ending : ∀ source lexemes expected, tokenize source = .ok lexemes →
    (parse source).run = .ok (.error (.unexpectedEnd expected)) →
    (∃ next, Opens parse (lexemes.map Lexeme.symbol ++ [next])) ∧
      ∀ other others, tokenize other = .ok others →
        others.map Lexeme.symbol = lexemes.map Lexeme.symbol →
        ∀ answer, (parse other).run ≠ .ok (.ok answer)

/-! ## Lists of items -/

variable {blocked : List Token} {item : List Lexeme → Parse (α × Nat)}
  {derives : List Symbol → α → Prop} {separator : Token}

theorem readSeparated_eq_refusal_iff {lexemes : List Lexeme} {refusal : SyntaxError} :
    (readSeparated separator item lexemes).run = .ok (.error refusal) ↔
      (item lexemes).run = .ok (.error refusal) ∨
        ∃ first taken next after, (item lexemes).run = .ok (.ok (first, taken)) ∧
          lexemes.drop taken = next :: after ∧ next.token = separator ∧
          (readSeparated separator item after).run = .ok (.error refusal) := by
  rw [readSeparated, Attempt.bind_eq_refusal_iff, Prod.exists]
  refine or_congr_right (exists_congr fun first => exists_congr fun taken => ?_)
  simp only
  split
  · next nothing => simp [nothing]
  · next next after rest =>
      rw [rest]
      split
      · next isSeparator =>
          rw [Attempt.bind_eq_refusal_iff]
          constructor
          · rintro ⟨readFirst, refused | ⟨_, _, finished⟩⟩
            · exact ⟨next, after, readFirst, rfl, isSeparator, refused⟩
            · cases finished
          · rintro ⟨_, _, readFirst, split, _, refused⟩
            cases split
            exact ⟨readFirst, .inl refused⟩
      · next other =>
          constructor
          · rintro ⟨_, finished⟩
            cases finished
          · rintro ⟨_, _, _, split, isSeparator, _⟩
            cases split
            exact absurd isSeparator other

theorem exists_inner_of_split {front back opening after : List Lexeme}
    {next sign : Lexeme} (split : front ++ next :: back = opening ++ sign :: after)
    (shorter : opening.length < front.length) :
    ∃ inner, front = opening ++ sign :: inner ∧ after = inner ++ next :: back := by
  rcases List.append_eq_append_iff.mp split with ⟨more, rfl, _⟩ | ⟨more, rfl, rest⟩
  · rw [List.length_append] at shorter
    omega
  · cases more with
    | nil => simp at shorter
    | cons other inner =>
        rcases List.cons.inj rest with ⟨rfl, rfl⟩
        exact ⟨inner, rfl, rfl⟩

theorem Diagnoses.steady_separated (diagnoses : Diagnoses item derives)
    (reads : Reads blocked item derives) {front back head tail : List Lexeme}
    {next follower : Lexeme} {answer : List α}
    (read : (readSeparated separator item (front ++ next :: back)).run =
      .ok (.ok (answer, front.length)))
    (same : head.map Lexeme.symbol = front.map Lexeme.symbol)
    (follows : follower.symbol = next.symbol) :
    (readSeparated separator item (head ++ follower :: tail)).run =
      .ok (.ok (answer, head.length)) := by
  induction size : front.length using Nat.strongRecOn generalizing front head answer with
  | ind size induction =>
      subst size
      rcases readSeparated_eq_ok_iff.mp read with ⟨first, taken, readFirst, rest⟩
      rcases reads.sound readFirst with ⟨opening, others, split, rfl, _⟩
      rw [split, List.drop_left] at rest
      rcases rest with ⟨ends, rfl, length⟩ |
        ⟨sign, after, items, further, rfl, isSeparator, readRest, rfl, length⟩
      · rcases List.append_inj split length with ⟨rfl, rfl⟩
        have readThere :=
          @Diagnoses.steady _ _ _ diagnoses _ _ _ _ readFirst _ tail _ same follows
        refine readSeparated_eq_ok_iff.mpr ⟨first, _, readThere, .inl ⟨?_, rfl, rfl⟩⟩
        rw [List.drop_left]
        intro lexeme member
        cases Option.some.inj member
        rw [Lexeme.token_eq_of_symbol follows]
        exact ends next rfl
      · rcases exists_inner_of_split split (by omega) with ⟨inner, rfl, rfl⟩
        rcases List.map_eq_append_iff.mp (same.trans List.map_append) with
          ⟨openingThere, othersThere, rfl, sameOpening, sameOthers⟩
        rcases List.map_eq_cons_iff.mp sameOthers with
          ⟨signThere, innerThere, rfl, sameSign, sameInner⟩
        have rest : further = inner.length := by
          rw [List.length_append, List.length_cons] at length
          omega
        subst rest
        have readInner := induction inner.length (by simp; omega) readRest sameInner rfl
        rw [List.append_assoc, List.cons_append] at readFirst ⊢
        have readOpening := @Diagnoses.steady _ _ _ diagnoses _ _ _ _ readFirst _
          (innerThere ++ follower :: tail) _ sameOpening sameSign
        refine readSeparated_eq_ok_iff.mpr
          ⟨first, _, readOpening, .inr ⟨signThere, _, items, _,
          List.drop_left, ?_, readInner, rfl, ?_⟩⟩
        · rw [Lexeme.token_eq_of_symbol sameSign, isSeparator]
        · rw [List.length_append, List.length_cons]
          omega

theorem Diagnoses.points_separated (diagnoses : Diagnoses item derives)
    (reads : Reads blocked item derives) (notName : separator ≠ .name)
    {lexemes : List Lexeme} {error : SyntaxError}
    (read : (readSeparated separator item lexemes).run = .ok (.error error)) :
    Points (readSeparated separator item) (DerivesSeparated separator derives) lexemes
      error := by
  induction size : lexemes.length using Nat.strongRecOn generalizing lexemes with
  | ind size induction =>
      subst size
      rcases readSeparated_eq_refusal_iff.mp read with
        refused | ⟨first, taken, next, after, readFirst, rest, isSeparator, refused⟩
      · apply (diagnoses.points refused).pass
        · rintro symbols ⟨others, answer, lexable, derived⟩
          exact ⟨others, [answer], lexable, .one derived⟩
        · intro _ _ refusal refusedThere
          exact ⟨refusal, readSeparated_eq_refusal_iff.mpr (.inl refusedThere)⟩
      · rcases reads.sound readFirst with ⟨opening, others, rfl, rfl, firstDerives⟩
        rw [List.drop_left] at rest
        subst rest
        have symbol : next.symbol = .sign separator :=
          isSeparator ▸ Lexeme.symbol_of_token (isSeparator ▸ notName)
        have points := induction after.length (by simp; omega) refused rfl
        rw [List.append_cons]
        refine points.lift ?_ ?_
        · rintro symbols ⟨others, answer, lexable, derived⟩
          refine ⟨others, first :: answer, lexable, ?_⟩
          simpa [symbol] using DerivesSeparated.more firstDerives derived
        · intro _ _ _ stuck others there
          rcases exists_split_of_begins there with ⟨head, tail, rfl, same, begins⟩
          rcases List.map_eq_append_iff.mp (same.trans List.map_append) with
            ⟨openingThere, last, rfl, sameOpening, sameLast⟩
          rcases List.map_eq_singleton_iff.mp sameLast with ⟨nextThere, rfl, sameNext⟩
          rcases stuck tail begins with ⟨refusal, refusedThere⟩
          rw [← List.append_cons]
          have readOpening := @Diagnoses.steady _ _ _ diagnoses _ _ _ _ readFirst _ tail _
            sameOpening sameNext
          refine ⟨refusal,
            readSeparated_eq_refusal_iff.mpr (.inr ⟨first, _, nextThere, tail,
            readOpening, List.drop_left, ?_, refusedThere⟩)⟩
          rw [Lexeme.token_eq_of_symbol sameNext, isSeparator]

theorem Diagnoses.separated (diagnoses : Diagnoses item derives)
    (reads : Reads blocked item derives) (notName : separator ≠ .name) :
    Diagnoses (readSeparated separator item) (DerivesSeparated separator derives) where
  steady := fun read _ _ _ same follows =>
    diagnoses.steady_separated reads read same follows
  points := diagnoses.points_separated reads notName

/-! ## Whole expressions -/

def readAll (item : List Lexeme → Parse (α × Nat)) (lexemes : List Lexeme) : Parse α := do
  let (result, used) ← item lexemes
  match lexemes.drop used with
  | [] => return result
  | other => throw (Expected.ending.missing other)

theorem readWhole_eq_readAll (source : String) :
    readWhole item source = (do
      let lexemes ← tokenize source
      readAll item lexemes) := rfl

theorem Diagnoses.points_readAll (diagnoses : Diagnoses item derives)
    (reads : Reads blocked item derives) {lexemes : List Lexeme} {error : SyntaxError}
    (read : (readAll item lexemes).run = .ok (.error error)) :
    Points (readAll item) derives lexemes error := by
  rcases Attempt.bind_eq_refusal_iff.mp read with
    refused | ⟨⟨answer, used⟩, readItem, finished⟩
  · apply (diagnoses.points refused).pass (fun _ => id)
    intro _ _ refusal refusedThere
    exact ⟨refusal, Attempt.bind_eq_refusal_iff.mpr (.inl refusedThere)⟩
  · rcases reads.sound readItem with ⟨front, back, rfl, rfl, derived⟩
    simp only [List.drop_left] at finished
    cases back with
    | nil => cases finished
    | cons next back =>
        cases finished
        refine points_missing (.of_derives derived) fun lexeme first => ?_
        cases Option.some.inj first
        refine stuck_concat fun head follower tail same follows => ?_
        have readThere :=
          @Diagnoses.steady _ _ _ diagnoses _ _ _ _ readItem _ tail _ same follows
        refine ⟨Expected.ending.missing (follower :: tail),
          Attempt.bind_eq_refusal_iff.mpr (.inr ⟨_, readThere, ?_⟩)⟩
        simp only [List.drop_left]
        rfl

theorem Reads.exists_source (reads : Reads blocked item derives)
    (apart : ∀ {symbols answer}, derives symbols answer → symbols.IsChain Symbol.Apart)
    {symbols : List Symbol} (lexable : ∀ symbol ∈ symbols, symbol.Lexable)
    (begins : Begins derives symbols) :
    ∃ source lexemes answer rest, tokenize source = .ok lexemes ∧
      (readWhole item source).run = .ok (.ok answer) ∧
      derives (lexemes.map Lexeme.symbol) answer ∧
      lexemes.map Lexeme.symbol = symbols ++ rest := by
  rcases begins with ⟨rest, answer, restLexable, derived⟩
  have written : ∀ symbol ∈ symbols ++ rest, symbol.Lexable := by
    intro symbol member
    rcases List.mem_append.mp member with member | member
    · exact lexable symbol member
    · exact restLexable symbol member
  rcases (spells_of_lexable written).scan (apart derived) 0 with ⟨lexemes, scanned, same⟩
  rw [← same] at derived
  have tokenized : tokenize (String.ofList ((symbols ++ rest).flatMap Symbol.spelling)) =
      .ok lexemes := by
    rw [tokenize, String.toList_ofList, scanned]
  exact ⟨_, lexemes, answer, rest, tokenized,
    reads.readWhole_eq_ok_iff.mpr ⟨lexemes, tokenized, derived⟩, derived, same⟩

theorem lexable_of_tokenize {source : String} {lexemes part : List Lexeme}
    (tokenized : tokenize source = .ok lexemes) (subset : part ⊆ lexemes) :
    ∀ symbol ∈ part.map Lexeme.symbol, symbol.Lexable := by
  intro symbol member
  rcases List.mem_map.mp member with ⟨lexeme, lexemeMember, rfl⟩
  exact Lexeme.lexable_of_scan tokenized lexeme (subset lexemeMember)

theorem not_opens_of_stuck {symbols : List Symbol}
    (stuck : Stuck (readAll item) symbols) :
    ¬ Opens (readWhole item) symbols := by
  rintro ⟨source, lexemes, answer, tokenized, accepted, begins⟩
  rw [readWhole_eq_readAll] at accepted
  rcases Attempt.bind_eq_ok_iff.mp accepted with ⟨others, otherTokenized, read⟩
  cases tokenized.symm.trans (Attempt.answer_eq_ok_iff.mp otherTokenized)
  rcases stuck lexemes begins with ⟨error, refused⟩
  cases read.symm.trans refused

theorem readAll_of_readWhole {source : String} {lexemes : List Lexeme}
    {error : SyntaxError} (tokenized : tokenize source = .ok lexemes)
    (refused : (readWhole item source).run = .ok (.error error)) :
    (readAll item lexemes).run = .ok (.error error) := by
  rw [readWhole_eq_readAll, tokenized] at refused
  exact refused

theorem Diagnoses.locates (diagnoses : Diagnoses item derives)
    (reads : Reads blocked item derives)
    (apart : ∀ {symbols answer}, derives symbols answer → symbols.IsChain Symbol.Apart) :
    Locates (readWhole item) where
  lexeme := by
    intro source lexemes error offset tokenized refused about
    cases diagnoses.points_readAll reads (readAll_of_readWhole tokenized refused) with
    | ending => cases about
    | @lexeme front back lexeme _ tells further begins stuck =>
        have here := (SyntaxError.offset_of_tells tells).symm.trans about
        refine ⟨front, lexeme, back, rfl, Option.some.inj here, tells, further, ?_,
          not_opens_of_stuck stuck⟩
        have lexable := lexable_of_tokenize tokenized (List.subset_append_left front _)
        rcases reads.exists_source apart lexable begins with
          ⟨longer, others, answer, rest, otherTokenized, accepted, _, same⟩
        exact ⟨longer, others, answer, otherTokenized, accepted, rest, same.symm⟩
  ending := by
    intro source lexemes expected tokenized refused
    have unread (answer : α) : ¬ derives (lexemes.map Lexeme.symbol) answer := by
      intro derived
      cases refused.symm.trans
        (reads.readWhole_eq_ok_iff.mpr ⟨lexemes, tokenized, derived⟩)
    constructor
    · cases diagnoses.points_readAll reads (readAll_of_readWhole tokenized refused) with
      | lexeme tells => cases tells
      | ending begins =>
          have lexable := lexable_of_tokenize tokenized (List.Subset.refl lexemes)
          rcases reads.exists_source apart lexable begins with
            ⟨longer, others, answer, rest, otherTokenized, accepted, derived, same⟩
          cases rest with
          | nil =>
              rw [same, List.append_nil] at derived
              exact absurd derived (unread answer)
          | cons next rest =>
              exact ⟨next, longer, others, answer, otherTokenized, accepted,
                rest, by simp [same]⟩
    · intro other others otherTokenized same answer accepted
      rcases reads.readWhole_eq_ok_iff.mp accepted with ⟨_, told, derived⟩
      cases otherTokenized.symm.trans told
      exact unread answer (same ▸ derived)

theorem Opens.map_iff {parse : String → Parse α} {change : α → β}
    {symbols : List Symbol} :
    Opens (fun source => change <$> parse source) symbols ↔ Opens parse symbols := by
  constructor
  · rintro ⟨source, lexemes, answer, tokenized, accepted, begins⟩
    rcases Attempt.map_eq_ok_iff.mp accepted with ⟨first, accepted, _⟩
    exact ⟨source, lexemes, first, tokenized, accepted, begins⟩
  · rintro ⟨source, lexemes, answer, tokenized, accepted, begins⟩
    exact ⟨source, lexemes, change answer, tokenized,
      Attempt.map_eq_ok_iff.mpr ⟨answer, accepted, rfl⟩, begins⟩

theorem Locates.map {parse : String → Parse α} (locates : Locates parse)
    (change : α → β) :
    Locates (fun source => change <$> parse source) where
  lexeme := by
    intro source lexemes error offset tokenized refused about
    simp only [Opens.map_iff]
    exact locates.lexeme source lexemes error offset tokenized
      (Attempt.map_eq_refusal_iff.mp refused) about
  ending := by
    intro source lexemes expected tokenized refused
    simp only [Opens.map_iff]
    rcases locates.ending source lexemes expected tokenized
      (Attempt.map_eq_refusal_iff.mp refused) with ⟨opens, unread⟩
    refine ⟨opens, fun other others otherTokenized same answer accepted => ?_⟩
    rcases Attempt.map_eq_ok_iff.mp accepted with ⟨first, accepted, _⟩
    exact unread other others otherTokenized same first accepted

/-- Patterns and use expressions are refused for the first lexeme that nothing goes on
with, whatever prefixes are bound, or for ending too early. -/
theorem locates_parse (scope : PrefixScope) :
    Locates (Pattern.parse · scope) ∧ Locates (UseExpression.parse · scope) := by
  constructor
  · have stepReads := Pattern.reads_step scope
    have pathReads : Reads [.slash, .colon, .leftParen] (readSeparated .slash _) _ :=
      stepReads.separated (by decide) (by decide)
    have paths : Diagnoses (readSeparated .slash _) _ :=
      (Pattern.diagnoses_step scope).separated stepReads (by decide)
    have alternatives : Diagnoses (readSeparated .pipe _) _ :=
      paths.separated pathReads (by decide)
    have locates := alternatives.locates (pathReads.separated (by decide) (by decide))
      fun derived => derived.isChain_apart (by decide)
        fun path => path.isChain_apart (by decide) DerivesStep.isChain_apart
    exact locates.map Pattern.mk
  · have steps : Diagnoses (readSeparated .slash _) _ :=
      (Step.diagnoses scope).separated (Step.reads scope) (by decide)
    exact (steps.locates (UseExpression.reads scope) isChain_apart_of_derivesUse).map
      UseExpression.mk

/-- A complaint is about the name before a parenthesis or a colon where that is what is
wrong. -/
example :
    (Pattern.parse "a/foo(b" (.ofList [])).run = .ok (.error (.unknownNodeTest "foo" 2)) ∧
      (Pattern.parse "a/p:b" (.ofList [])).run = .ok (.error (.unboundPrefix "p" 2)) ∧
      (UseExpression.parse "@a|b" (.ofList [])).run =
        .ok (.error (.unexpected .pipe 2 .ending)) ∧
      (UseExpression.parse "../text(" (.ofList [])).run =
        .ok (.error (.unexpectedEnd .rightParen)) := by
  decide +kernel

end Key

end ResultTree
