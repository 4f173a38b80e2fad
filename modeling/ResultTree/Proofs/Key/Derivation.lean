import ResultTree.Key.Grammar
import ResultTree.Proofs.Reading

namespace ResultTree

namespace Attempt

variable {α β ε : Type}

theorem answer_eq_ok_iff {answered : Except ε α} {answer : α} :
    (liftM answered : Attempt ε α).run = .ok (.ok answer) ↔ answered = .ok answer := by
  cases answered <;> simp [liftM, monadLift, MonadLift.monadLift]

theorem map_eq_ok_iff {change : α → β} {attempt : Attempt ε α} {answer : β} :
    (change <$> attempt).run = .ok (.ok answer) ↔
      ∃ first, attempt.run = .ok (.ok first) ∧ change first = answer := by
  rw [ExceptT.run_map]
  rcases attempt.run with _ | _ | first <;> simp

@[simp] theorem run_pure_eq_ok_iff {answer other : α} :
    (pure answer : Attempt ε α).run = .ok (.ok other) ↔ answer = other := by
  simp

end Attempt

namespace Key

/-! The grammar of expressions, on the symbols that lexemes stand for:

    pattern   := path ('|' path)*
    path      := step ('/' step)*
    step      := name-test | 'text' '(' ')' | 'node' '(' ')'
    use       := use-step ('/' use-step)*
    use-step  := step | '@' name-test | '.' | '..'
    name-test := '*' | NAME | NAME ':' NAME | NAME ':' '*'

What a derivation says of some symbols is their syntax tree, with the URIs of the
prefixes. -/

/-- A lexeme without its place: a sign, or a name with its spelling. -/
inductive Symbol
  | sign (token : Token)
  | name (text : String)
deriving DecidableEq, Repr

def Lexeme.symbol (lexeme : Lexeme) : Symbol :=
  if lexeme.token = .name then .name lexeme.text else .sign lexeme.token

inductive DerivesName (scope : PrefixScope) : List Symbol → NameTest → Prop
  | any : DerivesName scope [.sign .star] .any
  | name (localName : String) :
      DerivesName scope [.name localName] (.named none localName)
  | qualified {nsPrefix uri : String} (localName : String)
      (bound : scope nsPrefix = .ok (some uri)) :
      DerivesName scope [.name nsPrefix, .sign .colon, .name localName]
        (.named (some uri) localName)
  | inNamespace {nsPrefix uri : String} (bound : scope nsPrefix = .ok (some uri)) :
      DerivesName scope [.name nsPrefix, .sign .colon, .sign .star] (.inNamespace uri)

inductive DerivesStep (scope : PrefixScope) : List Symbol → Step → Prop
  | name {symbols : List Symbol} {test : NameTest}
      (derives : DerivesName scope symbols test) :
      DerivesStep scope symbols (.child (.ofName test))
  | text :
      DerivesStep scope [.name "text", .sign .leftParen, .sign .rightParen] (.child .text)
  | node :
      DerivesStep scope [.name "node", .sign .leftParen, .sign .rightParen]
        (.child .anyNode)

inductive DerivesUseStep (scope : PrefixScope) : List Symbol → Step → Prop
  | step {symbols : List Symbol} {step : Step}
      (derives : DerivesStep scope symbols step) :
      DerivesUseStep scope symbols step
  | ofAttribute {symbols : List Symbol} {test : NameTest}
      (derives : DerivesName scope symbols test) :
      DerivesUseStep scope (.sign .atSign :: symbols) (.attribute test)
  | self : DerivesUseStep scope [.sign .dot] .self
  | parent : DerivesUseStep scope [.sign .dotDot] .parent

inductive DerivesSeparated {α : Type} (separator : Token)
    (derives : List Symbol → α → Prop) :
    List Symbol → List α → Prop
  | one {symbols : List Symbol} {item : α} (first : derives symbols item) :
      DerivesSeparated separator derives symbols [item]
  | more {symbols others : List Symbol} {item : α} {items : List α}
      (first : derives symbols item)
      (rest : DerivesSeparated separator derives others items) :
      DerivesSeparated separator derives (symbols ++ .sign separator :: others)
        (item :: items)

abbrev DerivesPath (scope : PrefixScope) : List Symbol → List Step → Prop :=
  DerivesSeparated .slash (DerivesStep scope)

abbrev DerivesPattern (scope : PrefixScope) : List Symbol → List (List Step) → Prop :=
  DerivesSeparated .pipe (DerivesPath scope)

abbrev DerivesUse (scope : PrefixScope) : List Symbol → List Step → Prop :=
  DerivesSeparated .slash (DerivesUseStep scope)

def Pattern.steps (pattern : Pattern) : List (List Step) :=
  pattern.alternatives.map (·.map .child)

/-! ## Symbols and lexemes -/

theorem Lexeme.symbol_eq_name_iff {lexeme : Lexeme} {text : String} :
    lexeme.symbol = .name text ↔ ∃ offset, lexeme = ⟨.name, text, offset⟩ := by
  rcases lexeme with ⟨token, spelling, offset⟩
  by_cases named : token = .name <;> simp [Lexeme.symbol, named]

theorem Lexeme.token_of_symbol {lexeme : Lexeme} {token : Token}
    (same : lexeme.symbol = .sign token) : lexeme.token = token := by
  unfold Lexeme.symbol at same
  split at same
  · cases same
  · exact Symbol.sign.inj same

theorem Lexeme.eq_of_symbol {lexeme : Lexeme} {token : Token}
    (same : lexeme.symbol = .sign token) :
    ∃ text offset, lexeme = ⟨token, text, offset⟩ := by
  cases lexeme
  exact ⟨_, _, congrArg (Lexeme.mk · _ _) (token_of_symbol same)⟩

theorem Lexeme.symbol_of_token {lexeme : Lexeme} (notName : lexeme.token ≠ .name) :
    lexeme.symbol = .sign lexeme.token :=
  if_neg notName

theorem exists_three_of_map_symbol {lexemes : List Lexeme} {first second third : Symbol}
    (same : lexemes.map Lexeme.symbol = [first, second, third]) :
    ∃ left middle right, lexemes = [left, middle, right] ∧ left.symbol = first ∧
      middle.symbol = second ∧ right.symbol = third := by
  rcases List.map_eq_cons_iff.mp same with ⟨left, others, rfl, leftSame, same⟩
  rcases List.map_eq_cons_iff.mp same with ⟨middle, others, rfl, middleSame, same⟩
  rcases List.map_eq_singleton_iff.mp same with ⟨right, rfl, rightSame⟩
  exact ⟨left, middle, right, rfl, leftSame, middleSame, rightSame⟩

/-! ## Readers -/

variable {α β : Type}

/-- A reader reads what is derived. Where more follows, it must not be one of the tokens
that would be taken for a part of it. -/
structure Reads (blocked : List Token) (read : List Lexeme → Parse (α × Nat))
    (derives : List Symbol → α → Prop) : Prop where
  sound : ∀ {lexemes answer used}, (read lexemes).run = .ok (.ok (answer, used)) →
    ∃ front back, lexemes = front ++ back ∧ used = front.length ∧
      derives (front.map Lexeme.symbol) answer
  complete : ∀ {front back answer}, derives (front.map Lexeme.symbol) answer →
    (∀ next ∈ back.head?, next.token ∉ blocked) →
    (read (front ++ back)).run = .ok (.ok (answer, front.length))

theorem Reads.mono {blocked wider : List Token} {read : List Lexeme → Parse (α × Nat)}
    {derives : List Symbol → α → Prop} (reads : Reads blocked read derives)
    (subset : blocked ⊆ wider) : Reads wider read derives where
  sound := reads.sound
  complete := fun derived follows =>
    reads.complete derived fun next member stands => follows next member (subset stands)

variable {scope : PrefixScope}

theorem NameTest.reads (scope : PrefixScope) :
    Reads [.colon] (NameTest.read scope) (DerivesName scope) where
  sound := by
    intro lexemes answer used read
    unfold NameTest.read at read
    split at read
    · next text offset rest =>
        cases Attempt.run_pure_eq_ok_iff.mp read
        exact ⟨[⟨.star, text, offset⟩], rest, rfl, rfl, .any⟩
    · next nsPrefix offset text colonOffset rest =>
        rcases Attempt.bind_eq_ok_iff.mp read with ⟨bound, asked, read⟩
        have asked := Attempt.read_eq_ok_iff.mp asked
        cases bound with
        | none => simp at read
        | some uri =>
            simp only at read
            split at read
            · next starText starOffset after _ =>
                cases Attempt.run_pure_eq_ok_iff.mp read
                exact ⟨[⟨.name, nsPrefix, offset⟩, ⟨.colon, text, colonOffset⟩,
                  ⟨.star, starText, starOffset⟩], after, rfl, rfl, .inNamespace asked⟩
            · next localName localOffset after _ =>
                cases Attempt.run_pure_eq_ok_iff.mp read
                exact ⟨[⟨.name, nsPrefix, offset⟩, ⟨.colon, text, colonOffset⟩,
                  ⟨.name, localName, localOffset⟩], after, rfl, rfl,
                  .qualified localName asked⟩
            · simp at read
    · next localName offset rest _ =>
        cases Attempt.run_pure_eq_ok_iff.mp read
        exact ⟨[⟨.name, localName, offset⟩], rest, rfl, rfl, .name localName⟩
    · simp at read
  complete := by
    intro front back answer derives follows
    generalize same : front.map Lexeme.symbol = symbols at derives
    cases derives with
    | any =>
        rcases List.map_eq_singleton_iff.mp same with ⟨first, rfl, star⟩
        rcases Lexeme.eq_of_symbol star with ⟨text, offset, rfl⟩
        rfl
    | name localName =>
        rcases List.map_eq_singleton_iff.mp same with ⟨first, rfl, named⟩
        rcases Lexeme.symbol_eq_name_iff.mp named with ⟨offset, rfl⟩
        -- A colon after the name would make a prefix of it.
        rcases back with _ | ⟨⟨token, text, next⟩, after⟩
        · rfl
        · cases token with
          | colon => simp at follows
          | _ => rfl
    | qualified localName bound =>
        rcases exists_three_of_map_symbol same with
          ⟨_, _, _, rfl, named, colon, localNamed⟩
        rcases Lexeme.symbol_eq_name_iff.mp named with ⟨offset, rfl⟩
        rcases Lexeme.eq_of_symbol colon with ⟨text, colonOffset, rfl⟩
        rcases Lexeme.symbol_eq_name_iff.mp localNamed with ⟨localOffset, rfl⟩
        exact Attempt.bind_eq_ok_iff.mpr ⟨_, Attempt.read_eq_ok_iff.mpr bound, rfl⟩
    | inNamespace bound =>
        rcases exists_three_of_map_symbol same with ⟨_, _, _, rfl, named, colon, star⟩
        rcases Lexeme.symbol_eq_name_iff.mp named with ⟨offset, rfl⟩
        rcases Lexeme.eq_of_symbol colon with ⟨text, colonOffset, rfl⟩
        rcases Lexeme.eq_of_symbol star with ⟨starText, starOffset, rfl⟩
        exact Attempt.bind_eq_ok_iff.mpr ⟨_, Attempt.read_eq_ok_iff.mpr bound, rfl⟩

theorem DerivesName.front_cases {front : List Lexeme} {test : NameTest}
    (derives : DerivesName scope (front.map Lexeme.symbol) test) :
    (∃ text offset, front = [⟨.star, text, offset⟩] ∧ test = .any) ∨
      ∃ name offset rest, front = ⟨.name, name, offset⟩ :: rest ∧
        ∀ next ∈ rest.head?, next.token = .colon := by
  generalize same : front.map Lexeme.symbol = symbols at derives
  cases derives with
  | any =>
      rcases List.map_eq_singleton_iff.mp same with ⟨first, rfl, star⟩
      rcases Lexeme.eq_of_symbol star with ⟨text, offset, rfl⟩
      exact .inl ⟨text, offset, rfl, rfl⟩
  | name localName =>
      rcases List.map_eq_singleton_iff.mp same with ⟨first, rfl, named⟩
      rcases Lexeme.symbol_eq_name_iff.mp named with ⟨offset, rfl⟩
      exact .inr ⟨localName, offset, [], rfl, by simp⟩
  | qualified | inNamespace =>
      rcases List.map_eq_cons_iff.mp same with ⟨first, others, rfl, named, same⟩
      rcases List.map_eq_cons_iff.mp same with ⟨second, others, rfl, colon, _⟩
      rcases Lexeme.symbol_eq_name_iff.mp named with ⟨offset, rfl⟩
      exact .inr ⟨_, offset, _, rfl, by simpa using Lexeme.token_of_symbol colon⟩

theorem NodeTest.read_of_notCall {expected : Expected} {name : String} {offset : Nat}
    {rest : List Lexeme} (notCall : ∀ next ∈ rest.head?, next.token ≠ .leftParen) :
    NodeTest.read scope expected (⟨.name, name, offset⟩ :: rest) = do
      let (test, used) ← NameTest.read scope (⟨.name, name, offset⟩ :: rest)
      return (.ofName test, used) := by
  rcases rest with _ | ⟨⟨token, text, next⟩, after⟩
  · rfl
  · cases token with
    | leftParen => simp at notCall
    | _ => rfl

theorem NodeTest.reads (scope : PrefixScope) (expected : Expected) :
    Reads [.colon, .leftParen] (NodeTest.read scope expected)
      (fun symbols test => DerivesStep scope symbols (.child test)) where
  sound := by
    intro lexemes answer used read
    unfold NodeTest.read at read
    split at read
    · next name offset text parenOffset rest =>
        split at read
        · simp at read
        · next test closing closingOffset after called =>
            cases Attempt.run_pure_eq_ok_iff.mp read
            refine ⟨[⟨.name, name, offset⟩, ⟨.leftParen, text, parenOffset⟩,
              ⟨.rightParen, closing, closingOffset⟩], after, rfl, rfl, ?_⟩
            unfold ofCall? at called
            split at called <;> cases called
            · exact .text
            · exact .node
        · simp at read
    · rcases Attempt.bind_eq_ok_iff.mp read with ⟨⟨test, taken⟩, readName, same⟩
      cases Attempt.run_pure_eq_ok_iff.mp same
      rcases (NameTest.reads scope).sound readName with
        ⟨front, back, split, length, derives⟩
      exact ⟨front, back, split, length, .name derives⟩
    · next text offset rest =>
        cases Attempt.run_pure_eq_ok_iff.mp read
        exact ⟨[⟨.star, text, offset⟩], rest, rfl, rfl, .name .any⟩
    · simp at read
  complete := by
    intro front back answer derives follows
    generalize same : front.map Lexeme.symbol = symbols at derives
    cases derives with
    | name derives =>
        subst same
        have readName := ((NameTest.reads scope).mono (by simp)).complete derives follows
        rcases derives.front_cases with
          ⟨text, offset, rfl, rfl⟩ | ⟨name, offset, rest, rfl, colon⟩
        · rfl
        · have notCall : ∀ next ∈ (rest ++ back).head?, next.token ≠ .leftParen := by
            intro next member isParen
            cases rest with
            | nil => exact follows next member (by simp [isParen])
            | cons second others =>
                cases Option.some.inj member
                cases isParen.symm.trans (colon next rfl)
          rw [List.cons_append, read_of_notCall notCall]
          exact Attempt.bind_eq_ok_iff.mpr ⟨_, readName, rfl⟩
    | text | node =>
        rcases exists_three_of_map_symbol same with
          ⟨_, _, _, rfl, named, opening, closing⟩
        rcases Lexeme.symbol_eq_name_iff.mp named with ⟨offset, rfl⟩
        rcases Lexeme.eq_of_symbol opening with ⟨text, openingOffset, rfl⟩
        rcases Lexeme.eq_of_symbol closing with ⟨closingText, closingOffset, rfl⟩
        rfl

theorem DerivesStep.front_cases {front : List Lexeme} {step : Step}
    (derives : DerivesStep scope (front.map Lexeme.symbol) step) :
    ∃ token text offset rest, front = ⟨token, text, offset⟩ :: rest ∧
      (token = .star ∨ token = .name) := by
  generalize same : front.map Lexeme.symbol = symbols at derives
  cases derives with
  | name derives =>
      subst same
      rcases derives.front_cases with
        ⟨text, offset, rfl, _⟩ | ⟨name, offset, rest, rfl, _⟩
      · exact ⟨_, text, offset, [], rfl, .inl rfl⟩
      · exact ⟨_, name, offset, rest, rfl, .inr rfl⟩
  | text | node =>
      rcases List.map_eq_cons_iff.mp same with ⟨first, others, rfl, named, _⟩
      rcases Lexeme.symbol_eq_name_iff.mp named with ⟨offset, rfl⟩
      exact ⟨_, _, offset, others, rfl, .inr rfl⟩

theorem Pattern.reads_step (scope : PrefixScope) :
    Reads [.colon, .leftParen] (Pattern.readStep scope)
      (fun symbols test => DerivesStep scope symbols (.child test)) where
  sound := by
    intro lexemes answer used read
    unfold Pattern.readStep at read
    split at read
    · simp at read
    · simp at read
    · simp at read
    · exact (NodeTest.reads scope .patternStep).sound read
  complete := by
    intro front back answer derives follows
    have read := (NodeTest.reads scope .patternStep).complete derives follows
    rcases derives.front_cases with
      ⟨token, text, offset, rest, rfl, rfl | rfl⟩ <;> exact read

theorem DerivesStep.exists_test {symbols : List Symbol} {step : Step}
    (derives : DerivesStep scope symbols step) : ∃ test, step = .child test := by
  cases derives <;> exact ⟨_, rfl⟩

theorem Step.reads (scope : PrefixScope) :
    Reads [.colon, .leftParen] (Step.read scope) (DerivesUseStep scope) where
  sound := by
    intro lexemes answer used read
    unfold Step.read at read
    split at read
    · next text offset rest =>
        cases Attempt.run_pure_eq_ok_iff.mp read
        exact ⟨[⟨.dot, text, offset⟩], rest, rfl, rfl, .self⟩
    · next text offset rest =>
        cases Attempt.run_pure_eq_ok_iff.mp read
        exact ⟨[⟨.dotDot, text, offset⟩], rest, rfl, rfl, .parent⟩
    · next text offset rest =>
        rcases Attempt.bind_eq_ok_iff.mp read with ⟨⟨test, taken⟩, readName, same⟩
        cases Attempt.run_pure_eq_ok_iff.mp same
        rcases (NameTest.reads scope).sound readName with ⟨front, back, rfl, rfl, derives⟩
        exact ⟨⟨.atSign, text, offset⟩ :: front, back, rfl, rfl, .ofAttribute derives⟩
    · rcases Attempt.bind_eq_ok_iff.mp read with ⟨⟨test, taken⟩, readTest, same⟩
      cases Attempt.run_pure_eq_ok_iff.mp same
      rcases (NodeTest.reads scope .step).sound readTest with
        ⟨front, back, split, length, derives⟩
      exact ⟨front, back, split, length, .step derives⟩
  complete := by
    intro front back answer derives follows
    generalize same : front.map Lexeme.symbol = symbols at derives
    cases derives with
    | step derives =>
        subst same
        rcases derives.exists_test with ⟨test, rfl⟩
        have readTest := (NodeTest.reads scope .step).complete derives follows
        rcases derives.front_cases with ⟨token, text, offset, rest, rfl, rfl | rfl⟩ <;>
          exact Attempt.bind_eq_ok_iff.mpr ⟨_, readTest, rfl⟩
    | ofAttribute derives =>
        rcases List.map_eq_cons_iff.mp same with ⟨first, others, rfl, atSign, rfl⟩
        rcases Lexeme.eq_of_symbol atSign with ⟨text, offset, rfl⟩
        have readName := ((NameTest.reads scope).mono (by simp)).complete derives follows
        exact Attempt.bind_eq_ok_iff.mpr ⟨_, readName, rfl⟩
    | self | parent =>
        rcases List.map_eq_singleton_iff.mp same with ⟨first, rfl, sign⟩
        rcases Lexeme.eq_of_symbol sign with ⟨text, offset, rfl⟩
        rfl

/-! ## Lists of items and whole expressions -/

variable {blocked : List Token} {item : List Lexeme → Parse (α × Nat)}
  {derives : List Symbol → α → Prop} {separator : Token}

theorem readSeparated_eq_ok_iff {lexemes : List Lexeme} {answer : List α} {used : Nat} :
    (readSeparated separator item lexemes).run = .ok (.ok (answer, used)) ↔
      ∃ first taken, (item lexemes).run = .ok (.ok (first, taken)) ∧
        ((∀ next ∈ (lexemes.drop taken).head?, next.token ≠ separator) ∧
            answer = [first] ∧ used = taken ∨
          ∃ next after others further, lexemes.drop taken = next :: after ∧
            next.token = separator ∧
            (readSeparated separator item after).run = .ok (.ok (others, further)) ∧
            answer = first :: others ∧ used = taken + 1 + further) := by
  rw [readSeparated, Attempt.bind_eq_ok_iff, Prod.exists]
  refine exists_congr fun first => exists_congr fun taken => and_congr_right fun _ => ?_
  simp only
  split
  · next nothing =>
      rw [nothing, Attempt.run_pure_eq_ok_iff]
      constructor
      · intro same
        cases same
        exact .inl ⟨by simp, rfl, rfl⟩
      · rintro (⟨_, rfl, rfl⟩ | ⟨_, _, _, _, more, _⟩)
        · rfl
        · cases more
  · next next after rest =>
      rw [rest]
      split
      · next isSeparator =>
          rw [Attempt.bind_eq_ok_iff]
          constructor
          · rintro ⟨⟨others, further⟩, readRest, same⟩
            cases Attempt.run_pure_eq_ok_iff.mp same
            exact .inr ⟨next, after, others, further, rfl, isSeparator, readRest,
              rfl, rfl⟩
          · rintro (⟨ends, _⟩ | ⟨_, _, others, further, split, _, readRest, rfl, rfl⟩)
            · exact absurd isSeparator (ends next rfl)
            · cases split
              exact ⟨(others, further), readRest, rfl⟩
      · next other =>
          rw [Attempt.run_pure_eq_ok_iff]
          constructor
          · intro same
            cases same
            exact .inl ⟨by simpa using other, rfl, rfl⟩
          · rintro (⟨_, rfl, rfl⟩ | ⟨_, _, _, _, split, isSeparator, _⟩)
            · rfl
            · cases split
              exact absurd isSeparator other

theorem Reads.separated (reads : Reads blocked item derives) (notName : separator ≠ .name)
    (free : separator ∉ blocked) :
    Reads (separator :: blocked) (readSeparated separator item)
      (DerivesSeparated separator derives) where
  sound := by
    intro lexemes answer used read
    induction bound : lexemes.length using Nat.strongRecOn
      generalizing lexemes answer used with
    | ind length induction =>
        rcases readSeparated_eq_ok_iff.mp read with ⟨first, taken, readFirst, rest⟩
        rcases reads.sound readFirst with ⟨front, back, rfl, rfl, firstDerives⟩
        rw [List.drop_left] at rest
        rcases rest with ⟨_, rfl, rfl⟩ |
          ⟨next, after, others, further, rfl, isSeparator, readRest, rfl, rfl⟩
        · exact ⟨front, back, rfl, rfl, .one firstDerives⟩
        · have shorter : after.length < length := by
            rw [← bound, List.length_append, List.length_cons]
            omega
          rcases induction _ shorter readRest rfl with ⟨rest, last, rfl, rfl, restDerives⟩
          have symbol : next.symbol = .sign separator :=
            isSeparator ▸ Lexeme.symbol_of_token (isSeparator ▸ notName)
          refine ⟨front ++ next :: rest, last, by simp, ?_, ?_⟩
          · rw [List.length_append, List.length_cons]
            omega
          · rw [List.map_append, List.map_cons, symbol]
            exact .more firstDerives restDerives
  complete := by
    intro front back answer all follows
    generalize same : front.map Lexeme.symbol = symbols at all
    induction all generalizing front with
    | one firstDerives =>
        subst same
        have readFirst :=
          (reads.mono (List.subset_cons_self ..)).complete firstDerives follows
        refine readSeparated_eq_ok_iff.mpr ⟨_, _, readFirst, .inl ⟨?_, rfl, rfl⟩⟩
        rw [List.drop_left]
        exact fun next member same => follows next member (List.mem_cons.mpr (.inl same))
    | more firstDerives _ induction =>
        rcases List.map_eq_append_iff.mp same with ⟨head, tail, rfl, rfl, tailSame⟩
        rcases List.map_eq_cons_iff.mp tailSame with ⟨sign, rest, rfl, symbol, restSame⟩
        have isSeparator := Lexeme.token_of_symbol symbol
        rw [List.append_assoc, List.cons_append]
        have readFirst := @reads.complete head (sign :: (rest ++ back)) _ firstDerives
          (by simpa [isSeparator] using free)
        refine readSeparated_eq_ok_iff.mpr
          ⟨_, _, readFirst, .inr ⟨sign, rest ++ back, _, _,
          List.drop_left, isSeparator, induction restSame, rfl, ?_⟩⟩
        rw [List.length_append, List.length_cons]
        omega

/-- A whole text is read if its lexemes are derived. -/
theorem Reads.readWhole_eq_ok_iff (reads : Reads blocked item derives) {source : String}
    {answer : α} :
    (readWhole item source).run = .ok (.ok answer) ↔
      ∃ lexemes, tokenize source = .ok lexemes ∧
        derives (lexemes.map Lexeme.symbol) answer := by
  unfold readWhole
  rw [Attempt.bind_eq_ok_iff]
  refine exists_congr fun lexemes => and_congr Attempt.answer_eq_ok_iff ?_
  rw [Attempt.bind_eq_ok_iff]
  constructor
  · rintro ⟨⟨result, used⟩, read, finished⟩
    rcases reads.sound read with ⟨front, back, rfl, rfl, derived⟩
    simp only [List.drop_left] at finished
    split at finished
    · cases Attempt.run_pure_eq_ok_iff.mp finished
      simpa using derived
    · simp at finished
  · intro derived
    have read := @reads.complete lexemes [] _ derived (by simp)
    rw [List.append_nil] at read
    refine ⟨_, read, ?_⟩
    simp only [List.drop_length]
    rfl

theorem Reads.unique (reads : Reads blocked item derives) {lexemes : List Lexeme}
    {left right : α} (leftDerives : derives (lexemes.map Lexeme.symbol) left)
    (rightDerives : derives (lexemes.map Lexeme.symbol) right) : left = right := by
  have leftRead := @reads.complete lexemes [] _ leftDerives (by simp)
  have rightRead := @reads.complete lexemes [] _ rightDerives (by simp)
  cases leftRead.symm.trans rightRead
  rfl

theorem derivesSeparated_map_iff {change : β → α} {symbols : List Symbol}
    {items : List β} :
    DerivesSeparated separator derives symbols (items.map change) ↔
      DerivesSeparated separator
        (fun symbols item => derives symbols (change item)) symbols
        items := by
  constructor
  · intro all
    generalize same : items.map change = changed at all
    induction all generalizing items with
    | one first =>
        rcases List.map_eq_singleton_iff.mp same with ⟨item, rfl, rfl⟩
        exact .one first
    | more first _ induction =>
        rcases List.map_eq_cons_iff.mp same with ⟨item, rest, rfl, rfl, restSame⟩
        exact .more first (induction restSame)
  · intro all
    induction all with
    | one first => exact .one first
    | more first _ induction => exact .more first induction

end Key

end ResultTree
