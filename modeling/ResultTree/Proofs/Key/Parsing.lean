import ResultTree.Proofs.Key.Lexing

namespace ResultTree.Key

/-! Parsing and the grammar. An expression is parsed if and only if its lexemes are
derived, and to what they are derived, which is one tree. A tree that is written down,
with any blanks, is parsed again. -/

variable {α β : Type}

/-- A parser accepts exactly what some derivations allow. -/
structure Parses (parse : String → Parse α) (derives : List Symbol → α → Prop) :
    Prop where
  accepts : ∀ source answer, (parse source).run = .ok (.ok answer) ↔
    ∃ lexemes, tokenize source = .ok lexemes ∧ derives (lexemes.map Lexeme.symbol) answer
  unique : ∀ (lexemes : List Lexeme) left right,
    derives (lexemes.map Lexeme.symbol) left →
    derives (lexemes.map Lexeme.symbol) right → left = right
  roundTrip : ∀ symbols source answer, derives symbols answer →
    Spells symbols source.toList →
    (parse source).run = .ok (.ok answer)

variable {blocked : List Token} {item : List Lexeme → Parse (α × Nat)}
  {derives : List Symbol → α → Prop} {parse : String → Parse α}

theorem Reads.parses (reads : Reads blocked item derives)
    (apart : ∀ {symbols answer}, derives symbols answer → symbols.IsChain Symbol.Apart) :
    Parses (readWhole item) derives where
  accepts := fun _ _ => reads.readWhole_eq_ok_iff
  unique := fun _ _ _ => reads.unique
  roundTrip := by
    intro symbols source answer derived spells
    rcases spells.scan (apart derived) 0 with ⟨lexemes, scanned, rfl⟩
    exact reads.readWhole_eq_ok_iff.mpr ⟨lexemes, scanned, derived⟩

theorem Parses.map (parses : Parses parse derives) {change : α → β} {back : β → α}
    (backChange : ∀ answer, back (change answer) = answer)
    (changeBack : ∀ changed, change (back changed) = changed) :
    Parses (fun source => change <$> parse source)
      (fun symbols changed => derives symbols (back changed)) where
  accepts := by
    intro source changed
    refine Iff.trans ?_ (parses.accepts source (back changed))
    rw [Attempt.map_eq_ok_iff]
    constructor
    · rintro ⟨answer, read, rfl⟩
      rw [backChange, read]
    · exact fun read => ⟨back changed, read, changeBack changed⟩
  unique := by
    intro lexemes left right leftDerives rightDerives
    have same := parses.unique lexemes _ _ leftDerives rightDerives
    rw [← changeBack left, same, changeBack]
  roundTrip := by
    intro symbols source changed derived spells
    have read := parses.roundTrip symbols source _ derived spells
    exact Attempt.map_eq_ok_iff.mpr ⟨_, read, changeBack changed⟩

variable {scope : PrefixScope}

theorem Pattern.reads (scope : PrefixScope) :
    Reads [.pipe, .slash, .colon, .leftParen]
      (readSeparated .pipe (readSeparated .slash (readStep scope)))
      (fun symbols paths => DerivesPattern scope symbols (paths.map (·.map .child))) := by
  have paths : Reads [.slash, .colon, .leftParen] _ (DerivesSeparated .slash _) :=
    (Pattern.reads_step scope).separated (by decide) (by decide)
  have alternatives : Reads (.pipe :: _) _ (DerivesSeparated .pipe _) :=
    paths.separated (by decide) (by decide)
  simp only [derivesSeparated_map_iff]
  exact alternatives

theorem UseExpression.reads (scope : PrefixScope) :
    Reads [.slash, .colon, .leftParen] (readSeparated .slash (Step.read scope))
      (DerivesUse scope) :=
  (Step.reads scope).separated (by decide) (by decide)

theorem DerivesSeparated.exists_map_eq {separator : Token} {change : β → α}
    (each : ∀ {symbols item}, derives symbols item → ∃ origin, change origin = item)
    {symbols : List Symbol} {items : List α}
    (all : DerivesSeparated separator derives symbols items) :
    ∃ origins : List β, origins.map change = items := by
  induction all with
  | one first =>
      rcases each first with ⟨origin, rfl⟩
      exact ⟨[origin], rfl⟩
  | more first _ induction =>
      rcases each first with ⟨origin, rfl⟩
      rcases induction with ⟨origins, rfl⟩
      exact ⟨origin :: origins, rfl⟩

/-- Expressions are parsed by their grammar, each to one tree, and trees that are written
down are parsed again. All steps of what is derived as a pattern go to children. -/
theorem parses_grammar (scope : PrefixScope) :
    Parses (Pattern.parse · scope)
        (fun symbols pattern => DerivesPattern scope symbols pattern.steps) ∧
      (∀ symbols tree, DerivesPattern scope symbols tree →
        ∃ pattern : Pattern, pattern.steps = tree) ∧
      Parses (UseExpression.parse · scope)
        (fun symbols use => DerivesUse scope symbols use.steps) := by
  refine ⟨?_, ?_, ?_⟩
  · have alternatives := (Pattern.reads scope).parses isChain_apart_of_derivesPattern
    exact alternatives.map (fun _ => rfl) (fun _ => rfl)
  · intro symbols tree derives
    have step : ∀ {symbols step}, DerivesStep scope symbols step →
        ∃ test, Step.child test = step :=
      fun derived => derived.exists_test.imp fun _ same => same.symm
    rcases derives.exists_map_eq fun path =>
      path.exists_map_eq step with ⟨alternatives, same⟩
    exact ⟨⟨alternatives⟩, same⟩
  · have steps := (UseExpression.reads scope).parses isChain_apart_of_derivesUse
    exact steps.map (fun _ => rfl) (fun _ => rfl)

theorem parses_grammar_blanks :
    (Pattern.parse "a/ p:*  " (.ofList [("p", "urn:p")])).run =
        .ok (.ok ⟨[[.ofName (.named none "a"), .ofName (.inNamespace "urn:p")]]⟩) ∧
      (UseExpression.parse " @ b/.." (.ofList [])).run =
        .ok (.ok ⟨[.attribute (.named none "b"), .parent]⟩) := by
  have bound : PrefixScope.ofList [("p", "urn:p")] "p" = .ok (some "urn:p") := rfl
  have pattern : Spells [.name "a", .sign .slash, .name "p", .sign .colon, .sign .star]
      "a/ p:*  ".toList :=
    @Spells.next _ _ [] _ (by decide) (by decide) <|
    @Spells.next _ _ [] _ (by decide) (by decide) <|
    @Spells.next _ _ [' '] _ (by decide) (by decide) <|
    @Spells.next _ _ [] _ (by decide) (by decide) <|
    @Spells.next _ _ [] _ (by decide) (by decide) <| @Spells.done [' ', ' '] (by decide)
  have use :
      Spells [.sign .atSign, .name "b", .sign .slash, .sign .dotDot] " @ b/..".toList :=
    @Spells.next _ _ [' '] _ (by decide) (by decide) <|
    @Spells.next _ _ [' '] _ (by decide) (by decide) <|
    @Spells.next _ _ [] _ (by decide) (by decide) <|
    @Spells.next _ _ [] _ (by decide) (by decide) <| @Spells.done [] (by decide)
  exact ⟨(parses_grammar _).1.roundTrip _ _ _
      (.one (.more (.name (.name "a")) (.one (.name (.inNamespace bound))))) pattern,
    (parses_grammar _).2.2.roundTrip
    _ _ _ (.more (.ofAttribute (.name "b")) (.one .parent)) use⟩

end ResultTree.Key
