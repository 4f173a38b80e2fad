import ResultTree.Proofs.Key.Parsing

namespace ResultTree

theorem Attempt.read_ne_refusal {α ε : Type} {reading : Reading α} {refusal : ε} :
    (liftM reading : Attempt ε α).run ≠ .ok (.error refusal) := by
  cases reading <;> simp [liftM, monadLift, MonadLift.monadLift, ExceptT.lift]

namespace Key

/-! What readers complain about. A reader takes one lexeme after the other and looks at
most at the next, so that what it has read cannot be changed by what comes later, and
neither can a complaint. It complains about the first lexeme that nothing goes on with:
what comes before can still be completed to something it reads, and with the lexeme it
cannot. -/

def SyntaxError.offset? : SyntaxError → Option Nat
  | .badCharacter _ offset | .unexpected _ offset _ | .notInPattern _ offset
  | .unknownNodeTest _ offset | .unboundPrefix _ offset => some offset
  | .unexpectedEnd _ => none

def SyntaxError.further : SyntaxError → List Symbol
  | .unknownNodeTest _ _ => [.sign .leftParen]
  | .unboundPrefix _ _ => [.sign .colon]
  | _ => []

def SyntaxError.Tells : SyntaxError → Lexeme → Prop
  | .unexpected found offset _, lexeme | .notInPattern found offset, lexeme =>
      lexeme.token = found ∧ lexeme.offset = offset
  | .unknownNodeTest name offset, lexeme | .unboundPrefix name offset, lexeme =>
      lexeme = ⟨.name, name, offset⟩
  | .badCharacter _ _, _ | .unexpectedEnd _, _ => False

variable {α β : Type}

/-! ## Readers and what they complain about -/

def Begins (derives : List Symbol → α → Prop) (symbols : List Symbol) : Prop :=
  ∃ rest answer, (∀ symbol ∈ rest, symbol.Lexable) ∧ derives (symbols ++ rest) answer

def Stuck (read : List Lexeme → Parse β) (symbols : List Symbol) : Prop :=
  ∀ lexemes, symbols <+: lexemes.map Lexeme.symbol →
    ∃ error, (read lexemes).run = .ok (.error error)

/-- A complaint about the first of some lexemes that nothing goes on with, or about
their end. -/
inductive Points (read : List Lexeme → Parse β) (derives : List Symbol → α → Prop) :
    List Lexeme → SyntaxError → Prop
  | lexeme {front back : List Lexeme} {lexeme : Lexeme} {error : SyntaxError}
      (tells : error.Tells lexeme) (further : error.further <+: back.map Lexeme.symbol)
      (begins : Begins derives (front.map Lexeme.symbol))
      (stuck : Stuck read (front.map Lexeme.symbol ++ lexeme.symbol :: error.further)) :
      Points read derives (front ++ lexeme :: back) error
  | ending {lexemes : List Lexeme} {expected : Expected}
      (begins : Begins derives (lexemes.map Lexeme.symbol)) :
      Points read derives lexemes (.unexpectedEnd expected)

/-- A reader looks at most at the lexeme after what it reads, and complains about the
first lexeme that nothing goes on with. -/
structure Diagnoses (read : List Lexeme → Parse (α × Nat))
    (derives : List Symbol → α → Prop) : Prop where
  steady : ∀ {front back answer} {next : Lexeme},
    (read (front ++ next :: back)).run = .ok (.ok (answer, front.length)) →
    ∀ {head tail} {follower : Lexeme}, head.map Lexeme.symbol = front.map Lexeme.symbol →
      follower.symbol = next.symbol →
      (read (head ++ follower :: tail)).run = .ok (.ok (answer, head.length))
  points : ∀ {lexemes error}, (read lexemes).run = .ok (.error error) →
    Points read derives lexemes error

/-! ## Symbols that lexemes begin with -/

theorem Lexeme.token_eq_of_symbol {left right : Lexeme}
    (same : left.symbol = right.symbol) :
    left.token = right.token := by
  by_cases named : right.token = .name
  · rw [Lexeme.symbol, Lexeme.symbol, if_pos named] at same
    split at same
    · next leftNamed => exact leftNamed.trans named.symm
    · cases same
  · exact Lexeme.token_of_symbol (same.trans (Lexeme.symbol_of_token named))

theorem exists_head?_of_same {front head tail : List Lexeme}
    {next follower lexeme : Lexeme}
    (same : head.map Lexeme.symbol = front.map Lexeme.symbol)
    (follows : follower.symbol = next.symbol) (back : List Lexeme)
    (member : lexeme ∈ (head ++ follower :: tail).head?) :
    ∃ other ∈ (front ++ next :: back).head?, other.token = lexeme.token := by
  cases head with
  | nil =>
      cases List.map_eq_nil_iff.mp same.symm
      cases Option.some.inj member
      exact ⟨next, rfl, Lexeme.token_eq_of_symbol follows.symm⟩
  | cons first rest =>
      rcases List.map_eq_cons_iff.mp same.symm with ⟨other, others, rfl, sameFirst, _⟩
      cases Option.some.inj member
      exact ⟨other, rfl, Lexeme.token_eq_of_symbol sameFirst⟩

theorem exists_split_of_begins {front symbols : List Symbol} {lexemes : List Lexeme}
    (begins : front ++ symbols <+: lexemes.map Lexeme.symbol) :
    ∃ head tail, lexemes = head ++ tail ∧ head.map Lexeme.symbol = front ∧
      symbols <+: tail.map Lexeme.symbol := by
  rcases begins with ⟨rest, same⟩
  rw [List.append_assoc] at same
  rcases List.map_eq_append_iff.mp same.symm with ⟨head, tail, rfl, headSame, tailSame⟩
  exact ⟨head, tail, rfl, headSame, rest, tailSame.symm⟩

theorem exists_cons_of_begins {symbol : Symbol} {symbols : List Symbol}
    {lexemes : List Lexeme} (begins : symbol :: symbols <+: lexemes.map Lexeme.symbol) :
    ∃ first rest, lexemes = first :: rest ∧ first.symbol = symbol ∧
      symbols <+: rest.map Lexeme.symbol := by
  cases lexemes with
  | nil => simp at begins
  | cons first rest =>
      rcases List.cons_prefix_cons.mp begins with ⟨same, others⟩
      exact ⟨first, rest, rfl, same.symm, others⟩

theorem exists_two_of_map_symbol {lexemes : List Lexeme} {text : String} {token : Token}
    (same : lexemes.map Lexeme.symbol = [.name text, .sign token]) :
    ∃ offset spelling other,
      lexemes = [⟨.name, text, offset⟩, ⟨token, spelling, other⟩] := by
  rcases List.map_eq_cons_iff.mp same with ⟨first, others, rfl, named, sameSecond⟩
  rcases List.map_eq_singleton_iff.mp sameSecond with ⟨second, rfl, sign⟩
  rcases Lexeme.symbol_eq_name_iff.mp named with ⟨offset, rfl⟩
  rcases Lexeme.eq_of_symbol sign with ⟨spelling, other, rfl⟩
  exact ⟨offset, spelling, other, rfl⟩

/-! ## Complaints that carry over -/

variable {read : List Lexeme → Parse β} {derives : List Symbol → α → Prop}

theorem SyntaxError.offset_of_tells {error : SyntaxError} {lexeme : Lexeme}
    (tells : error.Tells lexeme) : error.offset? = some lexeme.offset := by
  cases error with
  | badCharacter | unexpectedEnd => cases tells
  | unexpected | notInPattern => rw [offset?, tells.2]
  | unknownNodeTest | unboundPrefix => rw [offset?, show lexeme = _ from tells]

theorem Begins.of_derives {symbols : List Symbol} {answer : α}
    (derived : derives symbols answer) :
    Begins derives symbols :=
  ⟨[], answer, by simp, by rwa [List.append_nil]⟩

theorem points_missing {front rest : List Lexeme} {expected : Expected}
    (begins : Begins derives (front.map Lexeme.symbol))
    (stuck : ∀ lexeme ∈ rest.head?,
      Stuck read (front.map Lexeme.symbol ++ [lexeme.symbol])) :
    Points read derives (front ++ rest) (expected.missing rest) := by
  cases rest with
  | nil =>
      rw [List.append_nil]
      exact .ending begins
  | cons lexeme back =>
      change Points read derives _ (.unexpected lexeme.token lexeme.offset expected)
      exact .lexeme ⟨rfl, rfl⟩ List.nil_prefix begins (stuck lexeme rfl)

theorem stuck_concat {front : List Symbol} {symbol : Symbol}
    (each : ∀ head follower tail, head.map Lexeme.symbol = front →
      follower.symbol = symbol →
      ∃ error, (read (head ++ follower :: tail)).run = .ok (.error error)) :
    Stuck read (front ++ [symbol]) := by
  intro lexemes begins
  rcases exists_split_of_begins begins with ⟨head, others, rfl, same, begins⟩
  rcases exists_cons_of_begins begins with ⟨follower, tail, rfl, follows, _⟩
  exact each head follower tail same follows

theorem stuck_sign {token : Token}
    (each : ∀ text offset tail, ∃ error, (read (⟨token, text, offset⟩ :: tail)).run =
      .ok (.error error)) : Stuck read [.sign token] := by
  refine @stuck_concat _ _ [] _ fun head follower tail same follows => ?_
  cases List.map_eq_nil_iff.mp same
  rcases Lexeme.eq_of_symbol follows with ⟨text, offset, rfl⟩
  exact each text offset tail

theorem stuck_name_sign {name : String} {token : Token}
    (each : ∀ offset text other tail,
      ∃ error, (read (⟨.name, name, offset⟩ :: ⟨token, text, other⟩ :: tail)).run =
        .ok (.error error)) : Stuck read [.name name, .sign token] := by
  intro lexemes begins
  rcases @exists_split_of_begins [.name name, .sign token] [] _ begins with
    ⟨head, tail, rfl, same, _⟩
  rcases exists_two_of_map_symbol same with ⟨offset, text, other, rfl⟩
  exact each offset text other tail

/-- A complaint of a part is one of the whole, if what comes before the part and what is
asked of it carry over. -/
theorem Points.lift {γ δ : Type} {whole : List Lexeme → Parse γ}
    {wider : List Symbol → δ → Prop} {lexemes lead : List Lexeme} {error : SyntaxError}
    (points : Points read derives lexemes error)
    (begins : ∀ symbols, Begins derives symbols →
      Begins wider (lead.map Lexeme.symbol ++ symbols))
    (stuck : ∀ first rest, first :: rest <+: lexemes.map Lexeme.symbol →
      Stuck read (first :: rest) →
      Stuck whole (lead.map Lexeme.symbol ++ first :: rest)) :
    Points whole wider (lead ++ lexemes) error := by
  cases points with
  | ending opened => exact .ending (by simpa using begins _ opened)
  | @lexeme front back lexeme _ tells further opened blocked =>
      rw [← List.append_assoc]
      refine .lexeme tells further (by simpa using begins _ opened) ?_
      rw [List.map_append, List.append_assoc]
      have here : front.map Lexeme.symbol ++ lexeme.symbol :: error.further <+:
          (front ++ lexeme :: back).map Lexeme.symbol := by
        simpa using further
      have some : ∃ first rest,
          front.map Lexeme.symbol ++ lexeme.symbol :: error.further = first :: rest := by
        cases front <;> simp
      rcases some with ⟨first, rest, same⟩
      rw [same] at here blocked ⊢
      exact stuck first rest here blocked

theorem Points.pass {γ δ : Type} {whole : List Lexeme → Parse γ}
    {wider : List Symbol → δ → Prop} {lexemes : List Lexeme} {error : SyntaxError}
    (points : Points read derives lexemes error)
    (begins : ∀ symbols, Begins derives symbols → Begins wider symbols)
    (passes : ∀ others,
      (others.map Lexeme.symbol).head? = (lexemes.map Lexeme.symbol).head? →
      ∀ error, (read others).run = .ok (.error error) →
        ∃ error, (whole others).run = .ok (.error error)) :
    Points whole wider lexemes error := by
  refine @Points.lift _ _ _ _ _ _ _ _ _ [] _ points begins fun first rest here stuck => ?_
  intro others there
  rcases stuck others there with ⟨refusal, refused⟩
  refine passes others ?_ refusal refused
  rcases exists_cons_of_begins here with ⟨_, _, rfl, same, _⟩
  rcases exists_cons_of_begins there with ⟨_, _, rfl, follows, _⟩
  exact congrArg some (follows.trans same.symm)

theorem Reads.derives_of_read {blocked : List Token}
    {item : List Lexeme → Parse (α × Nat)} (reads : Reads blocked item derives)
    {front back : List Lexeme} {answer : α}
    (read : (item (front ++ back)).run = .ok (.ok (answer, front.length))) :
    derives (front.map Lexeme.symbol) answer := by
  rcases reads.sound read with ⟨taken, rest, split, length, derived⟩
  rcases List.append_inj split length with ⟨rfl, rfl⟩
  exact derived

/-! ## Names -/

variable {scope : PrefixScope}

theorem NameTest.used_of_colon {nsPrefix text : String} {offset colonOffset used : Nat}
    {rest : List Lexeme} {answer : NameTest}
    (read : (NameTest.read scope
      (⟨.name, nsPrefix, offset⟩ :: ⟨.colon, text, colonOffset⟩ :: rest)).run =
        .ok (.ok (answer, used))) : used = 3 := by
  rcases Attempt.bind_eq_ok_iff.mp read with ⟨bound, _, read⟩
  cases bound with
  | none => simp at read
  | some uri =>
      simp only at read
      split at read
      · cases Attempt.run_pure_eq_ok_iff.mp read
        rfl
      · cases Attempt.run_pure_eq_ok_iff.mp read
        rfl
      · simp at read

theorem NameTest.steady {front back head tail : List Lexeme} {next follower : Lexeme}
    {answer : NameTest}
    (read : (NameTest.read scope (front ++ next :: back)).run =
      .ok (.ok (answer, front.length)))
    (same : head.map Lexeme.symbol = front.map Lexeme.symbol)
    (follows : follower.symbol = next.symbol) :
    (NameTest.read scope (head ++ follower :: tail)).run =
      .ok (.ok (answer, head.length)) := by
  have derives := (NameTest.reads scope).derives_of_read read
  rw [← same] at derives
  -- Only a colon would be taken for a part of the test.
  by_cases colon : follower.token = .colon
  case neg => exact (NameTest.reads scope).complete derives (by simpa using colon)
  generalize written : head.map Lexeme.symbol = symbols at derives
  cases derives with
  | any =>
      rcases List.map_eq_singleton_iff.mp written with ⟨first, rfl, star⟩
      rcases Lexeme.eq_of_symbol star with ⟨text, offset, rfl⟩
      rfl
  | name localName =>
      rcases List.map_eq_singleton_iff.mp (same.symm.trans written) with
        ⟨first, rfl, named⟩
      rcases Lexeme.symbol_eq_name_iff.mp named with ⟨offset, rfl⟩
      rcases next with ⟨token, text, colonOffset⟩
      cases (Lexeme.token_eq_of_symbol follows).symm.trans colon
      cases NameTest.used_of_colon read
  | qualified localName bound =>
      rcases exists_three_of_map_symbol written with
        ⟨_, _, _, rfl, named, colon, localNamed⟩
      rcases Lexeme.symbol_eq_name_iff.mp named with ⟨offset, rfl⟩
      rcases Lexeme.eq_of_symbol colon with ⟨text, colonOffset, rfl⟩
      rcases Lexeme.symbol_eq_name_iff.mp localNamed with ⟨localOffset, rfl⟩
      exact Attempt.bind_eq_ok_iff.mpr ⟨_, Attempt.read_eq_ok_iff.mpr bound, rfl⟩
  | inNamespace bound =>
      rcases exists_three_of_map_symbol written with ⟨_, _, _, rfl, named, colon, star⟩
      rcases Lexeme.symbol_eq_name_iff.mp named with ⟨offset, rfl⟩
      rcases Lexeme.eq_of_symbol colon with ⟨text, colonOffset, rfl⟩
      rcases Lexeme.eq_of_symbol star with ⟨starText, starOffset, rfl⟩
      exact Attempt.bind_eq_ok_iff.mpr ⟨_, Attempt.read_eq_ok_iff.mpr bound, rfl⟩

theorem NameTest.begins_nil : Begins (DerivesName scope) [] :=
  ⟨[.sign .star], .any, by simp [Symbol.Lexable], .any⟩

theorem NameTest.points_of_colon {nsPrefix text : String} {offset colonOffset : Nat}
    {rest : List Lexeme} {error : SyntaxError}
    (read : (NameTest.read scope
      (⟨.name, nsPrefix, offset⟩ :: ⟨.colon, text, colonOffset⟩ :: rest)).run =
        .ok (.error error)) :
    Points (NameTest.read scope) (DerivesName scope)
      (⟨.name, nsPrefix, offset⟩ :: ⟨.colon, text, colonOffset⟩ :: rest) error := by
  rcases Attempt.bind_eq_refusal_iff.mp read with refused | ⟨bound, asked, read⟩
  · exact absurd refused Attempt.read_ne_refusal
  have known := Attempt.read_eq_ok_iff.mp asked
  cases bound with
  | none =>
      cases read
      refine @Points.lexeme _ _ _ _ [] _ _ _ rfl ⟨rest.map Lexeme.symbol, rfl⟩
        NameTest.begins_nil ?_
      apply stuck_name_sign
      exact fun _ _ _ _ => ⟨_, Attempt.bind_eq_refusal_iff.mpr (.inr ⟨_, asked, rfl⟩)⟩
  | some uri =>
      have begins : Begins (DerivesName scope) [.name nsPrefix, .sign .colon] :=
        ⟨[.sign .star], _, by simp [Symbol.Lexable], .inNamespace known⟩
      rcases rest with _ | ⟨⟨token, other, otherOffset⟩, after⟩
      · cases read
        exact .ending begins
      · cases token with
        | star | name => cases read
        | _ =>
            cases read
            refine @points_missing _ _ _ _
              [⟨.name, nsPrefix, offset⟩, ⟨.colon, text, colonOffset⟩] _ .localName
              begins ?_
            intro lexeme first
            cases first
            refine stuck_concat fun head follower tail same follows => ?_
            rcases exists_two_of_map_symbol same with ⟨_, _, _, rfl⟩
            rcases Lexeme.eq_of_symbol follows with ⟨_, _, rfl⟩
            exact ⟨_, Attempt.bind_eq_refusal_iff.mpr (.inr ⟨_, asked, rfl⟩)⟩

theorem NameTest.points {lexemes : List Lexeme} {error : SyntaxError}
    (read : (NameTest.read scope lexemes).run = .ok (.error error)) :
    Points (NameTest.read scope) (DerivesName scope) lexemes error := by
  rcases lexemes with _ | ⟨⟨token, text, offset⟩, rest⟩
  · cases read
    exact .ending NameTest.begins_nil
  · cases token with
    | star => cases read
    | name =>
        rcases rest with _ | ⟨⟨next, nextText, nextOffset⟩, after⟩
        · cases read
        · cases next with
          | colon => exact NameTest.points_of_colon read
          | _ => cases read
    | _ =>
        cases read
        refine @points_missing _ _ _ _ [] _ .name NameTest.begins_nil ?_
        intro lexeme first
        cases first
        exact stuck_sign fun _ _ _ => ⟨_, rfl⟩

/-! ## Tests -/

theorem NodeTest.derives_of_call {name : String} {test : NodeTest}
    (called : ofCall? name = some test) :
    DerivesStep scope [.name name, .sign .leftParen, .sign .rightParen]
      (.child test) := by
  unfold ofCall? at called
  split at called <;> cases called
  · exact .text
  · exact .node

theorem NodeTest.begins_nil :
    Begins (fun symbols test => DerivesStep scope symbols (.child test)) [] :=
  ⟨[.sign .star], .ofName .any, by simp [Symbol.Lexable], .name .any⟩

variable {expected : Expected}

theorem NodeTest.used_of_call {name text : String} {offset parenOffset used : Nat}
    {rest : List Lexeme} {answer : NodeTest}
    (read : (NodeTest.read scope expected
      (⟨.name, name, offset⟩ :: ⟨.leftParen, text, parenOffset⟩ :: rest)).run =
        .ok (.ok (answer, used))) : used = 3 := by
  simp only [NodeTest.read] at read
  split at read
  · simp at read
  · cases Attempt.run_pure_eq_ok_iff.mp read
    rfl
  · simp at read

theorem NodeTest.notCall_of_read {name : String} {offset : Nat} {rest back : List Lexeme}
    {next : Lexeme} {answer : NodeTest}
    (read :
      (NodeTest.read scope expected (⟨.name, name, offset⟩ :: rest ++ next :: back)).run =
        .ok (.ok (answer, rest.length + 1)))
    (colon : ∀ second ∈ rest.head?, second.token = .colon) :
    ∀ lexeme ∈ (rest ++ next :: back).head?, lexeme.token ≠ .leftParen := by
  intro lexeme member isParen
  cases rest with
  | nil =>
      cases Option.some.inj member
      rcases next with ⟨token, text, parenOffset⟩
      cases isParen
      cases NodeTest.used_of_call read
  | cons second others =>
      cases Option.some.inj member
      cases isParen.symm.trans (colon _ rfl)

theorem NodeTest.steady {front back head tail : List Lexeme} {next follower : Lexeme}
    {answer : NodeTest}
    (read : (NodeTest.read scope expected (front ++ next :: back)).run =
      .ok (.ok (answer, front.length)))
    (same : head.map Lexeme.symbol = front.map Lexeme.symbol)
    (follows : follower.symbol = next.symbol) :
    (NodeTest.read scope expected (head ++ follower :: tail)).run =
      .ok (.ok (answer, head.length)) := by
  have derives := (NodeTest.reads scope expected).derives_of_read read
  generalize written : front.map Lexeme.symbol = symbols at derives
  cases derives with
  | name derives =>
      subst written
      rcases derives.front_cases with
        ⟨text, offset, rfl, rfl⟩ | ⟨name, offset, rest, rfl, colon⟩
      · rcases List.map_eq_singleton_iff.mp same with ⟨first, rfl, star⟩
        rcases Lexeme.eq_of_symbol star with ⟨_, _, rfl⟩
        rfl
      · rcases List.map_eq_cons_iff.mp same with ⟨first, others, rfl, named, sameRest⟩
        rcases Lexeme.symbol_eq_name_iff.mp named with ⟨otherOffset, rfl⟩
        have notCall := NodeTest.notCall_of_read read colon
        have notCallThere : ∀ lexeme ∈ (others ++ follower :: tail).head?,
            lexeme.token ≠ .leftParen := by
          intro lexeme member isParen
          rcases exists_head?_of_same sameRest follows back member with
            ⟨other, otherMember, token⟩
          exact notCall other otherMember (token.trans isParen)
        rw [List.cons_append, read_of_notCall notCall] at read
        rcases Attempt.bind_eq_ok_iff.mp read with ⟨⟨test, taken⟩, readName, finished⟩
        cases Attempt.run_pure_eq_ok_iff.mp finished
        rw [List.cons_append, read_of_notCall notCallThere]
        have readThere := @NameTest.steady scope (⟨.name, name, offset⟩ :: rest) back
          (⟨.name, name, otherOffset⟩ :: others) tail next follower _ readName
          same follows
        exact Attempt.bind_eq_ok_iff.mpr ⟨_, readThere, rfl⟩
  | text | node =>
      rcases exists_three_of_map_symbol (same.trans written) with
        ⟨_, _, _, rfl, named, opening, closing⟩
      rcases Lexeme.symbol_eq_name_iff.mp named with ⟨offset, rfl⟩
      rcases Lexeme.eq_of_symbol opening with ⟨text, openingOffset, rfl⟩
      rcases Lexeme.eq_of_symbol closing with ⟨closingText, closingOffset, rfl⟩
      rfl

theorem NodeTest.points_of_call {name text : String} {offset parenOffset : Nat}
    {rest : List Lexeme} {error : SyntaxError}
    (read : (NodeTest.read scope expected
      (⟨.name, name, offset⟩ :: ⟨.leftParen, text, parenOffset⟩ :: rest)).run =
        .ok (.error error)) :
    Points (NodeTest.read scope expected)
      (fun symbols test => DerivesStep scope symbols (.child test))
      (⟨.name, name, offset⟩ :: ⟨.leftParen, text, parenOffset⟩ :: rest) error := by
  cases called : ofCall? name with
  | none =>
      simp only [NodeTest.read, called] at read
      cases read
      refine @Points.lexeme _ _ _ _ [] _ _ _ rfl ⟨rest.map Lexeme.symbol, rfl⟩
        NodeTest.begins_nil ?_
      apply stuck_name_sign
      intro otherOffset _ _ _
      refine ⟨.unknownNodeTest name otherOffset, ?_⟩
      simp only [NodeTest.read, called]
      rfl
  | some test =>
      simp only [NodeTest.read, called] at read
      have begins : Begins (fun symbols test => DerivesStep scope symbols (.child test))
          [.name name, .sign .leftParen] :=
        ⟨[.sign .rightParen], test, by simp [Symbol.Lexable],
          NodeTest.derives_of_call called⟩
      rcases rest with _ | ⟨⟨token, other, otherOffset⟩, after⟩
      · cases read
        exact .ending begins
      · cases token with
        | rightParen => cases read
        | _ =>
            cases read
            refine @points_missing _ _ _ _
              [⟨.name, name, offset⟩, ⟨.leftParen, text, parenOffset⟩] _ .rightParen
              begins ?_
            intro lexeme first
            cases first
            refine stuck_concat fun head follower tail same follows => ?_
            rcases exists_two_of_map_symbol same with ⟨_, _, _, rfl⟩
            rcases follower with ⟨_, _, _⟩
            cases Lexeme.token_eq_of_symbol follows
            simp only [List.cons_append, List.nil_append, NodeTest.read, called]
            exact ⟨_, rfl⟩

theorem NodeTest.points_of_notCall {name : String} {offset : Nat} {rest : List Lexeme}
    {error : SyntaxError} (notCall : ∀ next ∈ rest.head?, next.token ≠ .leftParen)
    (read : (NodeTest.read scope expected (⟨.name, name, offset⟩ :: rest)).run =
      .ok (.error error)) :
    Points (NodeTest.read scope expected)
      (fun symbols test => DerivesStep scope symbols (.child test))
      (⟨.name, name, offset⟩ :: rest) error := by
  rw [read_of_notCall notCall] at read
  rcases Attempt.bind_eq_refusal_iff.mp read with refused | ⟨_, _, finished⟩
  case inr => cases finished
  refine @Points.lift _ _ _ _ _ _ _ _ _ [] _ (NameTest.points refused) ?_ ?_
  · rintro symbols ⟨others, test, lexable, derived⟩
    exact ⟨others, .ofName test, lexable, .name derived⟩
  · intro first others here stuck lexemes there
    rcases List.cons_prefix_cons.mp here with ⟨rfl, hereRest⟩
    rcases exists_cons_of_begins there with ⟨head, tail, rfl, named, thereRest⟩
    rcases Lexeme.symbol_eq_name_iff.mp named with ⟨_, rfl⟩
    have notCallThere : ∀ next ∈ tail.head?, next.token ≠ .leftParen := by
      cases others with
      | nil =>
          -- A name alone is read, so that it takes more to be stuck.
          rcases stuck [⟨.name, name, offset⟩] (List.prefix_refl _) with ⟨_, refused⟩
          cases refused
      | cons second others =>
          rcases exists_cons_of_begins hereRest with ⟨next, _, rfl, same, _⟩
          rcases exists_cons_of_begins thereRest with ⟨nextThere, _, rfl, sameThere, _⟩
          intro lexeme member
          cases Option.some.inj member
          rw [Lexeme.token_eq_of_symbol (sameThere.trans same.symm)]
          exact notCall next rfl
    rcases stuck _ there with ⟨refusal, refused⟩
    rw [read_of_notCall notCallThere]
    exact ⟨refusal, Attempt.bind_eq_refusal_iff.mpr (.inl refused)⟩

theorem NodeTest.points {lexemes : List Lexeme} {error : SyntaxError}
    (read : (NodeTest.read scope expected lexemes).run = .ok (.error error)) :
    Points (NodeTest.read scope expected)
      (fun symbols test => DerivesStep scope symbols (.child test)) lexemes error := by
  rcases lexemes with _ | ⟨⟨token, text, offset⟩, rest⟩
  · cases read
    exact .ending NodeTest.begins_nil
  · cases token with
    | star => cases read
    | name =>
        rcases rest with _ | ⟨⟨next, nextText, nextOffset⟩, after⟩
        · exact NodeTest.points_of_notCall (by simp) read
        · by_cases call : next = .leftParen
          · subst call
            exact NodeTest.points_of_call read
          · exact NodeTest.points_of_notCall (by simpa using call) read
    | _ =>
        cases read
        refine @points_missing _ _ _ _ [] _ expected NodeTest.begins_nil ?_
        intro lexeme first
        cases first
        exact stuck_sign fun _ _ _ => ⟨_, rfl⟩

/-! ## Steps -/

def Plain (lexemes : List Lexeme) : Prop :=
  ∀ first ∈ lexemes.head?, first.token ∉ [.dot, .dotDot, .atSign]

theorem Plain.of_same {lexemes others : List Lexeme} (plain : Plain lexemes)
    (same : (others.map Lexeme.symbol).head? = (lexemes.map Lexeme.symbol).head?) :
    Plain others := by
  intro first member
  rw [List.head?_map, List.head?_map, member, Option.map_some] at same
  rcases Option.map_eq_some_iff.mp same.symm with ⟨other, otherMember, symbol⟩
  rw [← Lexeme.token_eq_of_symbol symbol]
  exact plain other otherMember

theorem DerivesStep.plain {front : List Lexeme} {step : Step}
    (derives : DerivesStep scope (front.map Lexeme.symbol) step) (back : List Lexeme) :
    Plain (front ++ back) := by
  rcases derives.front_cases with ⟨token, text, offset, rest, rfl, sign⟩
  intro first member
  cases Option.some.inj member
  rcases sign with rfl | rfl <;> simp

theorem Pattern.readStep_of_plain {lexemes : List Lexeme} (plain : Plain lexemes) :
    readStep scope lexemes = NodeTest.read scope .patternStep lexemes := by
  rcases lexemes with _ | ⟨⟨token, text, offset⟩, rest⟩
  · rfl
  · cases token with
    | dot | dotDot | atSign => exact absurd (plain _ rfl) (by simp)
    | _ => rfl

theorem Step.read_of_plain {lexemes : List Lexeme} (plain : Plain lexemes) :
    Step.read scope lexemes = do
      let (test, used) ← NodeTest.read scope .step lexemes
      return (.child test, used) := by
  rcases lexemes with _ | ⟨⟨token, text, offset⟩, rest⟩
  · rfl
  · cases token with
    | dot | dotDot | atSign => exact absurd (plain _ rfl) (by simp)
    | _ => rfl

theorem Pattern.steady_step {front back head tail : List Lexeme} {next follower : Lexeme}
    {answer : NodeTest}
    (read :
      (readStep scope (front ++ next :: back)).run = .ok (.ok (answer, front.length)))
    (same : head.map Lexeme.symbol = front.map Lexeme.symbol)
    (follows : follower.symbol = next.symbol) :
    (readStep scope (head ++ follower :: tail)).run =
      .ok (.ok (answer, head.length)) := by
  have derives := (Pattern.reads_step scope).derives_of_read read
  rw [readStep_of_plain (derives.plain _)] at read
  rw [← same] at derives
  rw [readStep_of_plain (derives.plain _)]
  exact NodeTest.steady read same follows

theorem Pattern.points_step {lexemes : List Lexeme} {error : SyntaxError}
    (read : (readStep scope lexemes).run = .ok (.error error)) :
    Points (readStep scope)
      (fun symbols test => DerivesStep scope symbols (.child test)) lexemes
      error := by
  by_cases plain : Plain lexemes
  · rw [readStep_of_plain plain] at read
    refine (NodeTest.points read).pass (fun _ => id) fun others same refusal refused => ?_
    exact ⟨refusal, by rw [readStep_of_plain (plain.of_same same), refused]⟩
  · rcases lexemes with _ | ⟨⟨token, text, offset⟩, rest⟩
    · exact absurd (by simp [Plain]) plain
    · cases token with
      | dot | dotDot | atSign =>
          cases read
          refine @Points.lexeme _ _ _ _ [] rest _ _ ⟨rfl, rfl⟩ List.nil_prefix
            NodeTest.begins_nil ?_
          exact stuck_sign fun _ _ _ => ⟨_, rfl⟩
      | _ => exact absurd (by simp [Plain]) plain

theorem Pattern.diagnoses_step (scope : PrefixScope) :
    Diagnoses (readStep scope)
      (fun symbols test => DerivesStep scope symbols (.child test)) where
  steady := fun read _ _ _ same follows => Pattern.steady_step read same follows
  points := Pattern.points_step

theorem Step.begins_of_begins {symbols : List Symbol}
    (begins :
      Begins (fun symbols test => DerivesStep scope symbols (.child test)) symbols) :
    Begins (DerivesUseStep scope) symbols := by
  rcases begins with ⟨rest, test, lexable, derived⟩
  exact ⟨rest, .child test, lexable, .step derived⟩

theorem Step.steady {front back head tail : List Lexeme} {next follower : Lexeme}
    {answer : Step}
    (read :
      (Step.read scope (front ++ next :: back)).run = .ok (.ok (answer, front.length)))
    (same : head.map Lexeme.symbol = front.map Lexeme.symbol)
    (follows : follower.symbol = next.symbol) :
    (Step.read scope (head ++ follower :: tail)).run =
      .ok (.ok (answer, head.length)) := by
  have derives := (Step.reads scope).derives_of_read read
  generalize written : front.map Lexeme.symbol = symbols at derives
  cases derives with
  | step derives =>
      subst written
      rw [read_of_plain (derives.plain _)] at read
      rcases Attempt.bind_eq_ok_iff.mp read with ⟨⟨test, taken⟩, readTest, finished⟩
      cases Attempt.run_pure_eq_ok_iff.mp finished
      rw [← same] at derives
      rw [read_of_plain (derives.plain _)]
      exact Attempt.bind_eq_ok_iff.mpr ⟨_, NodeTest.steady readTest same follows, rfl⟩
  | ofAttribute derives =>
      rcases List.map_eq_cons_iff.mp written with ⟨first, others, rfl, atSign, _⟩
      rcases Lexeme.eq_of_symbol atSign with ⟨text, offset, rfl⟩
      rcases List.map_eq_cons_iff.mp same with
        ⟨firstThere, othersThere, rfl, atSign, sameOthers⟩
      rcases Lexeme.eq_of_symbol atSign with ⟨textThere, offsetThere, rfl⟩
      rcases Attempt.bind_eq_ok_iff.mp read with ⟨⟨test, taken⟩, readTest, finished⟩
      cases Attempt.run_pure_eq_ok_iff.mp finished
      have readThere := @NameTest.steady _ _ _ _ tail _ _ _ readTest sameOthers follows
      exact Attempt.bind_eq_ok_iff.mpr ⟨_, readThere, rfl⟩
  | self | parent =>
      rcases List.map_eq_singleton_iff.mp (same.trans written) with ⟨first, rfl, sign⟩
      rcases Lexeme.eq_of_symbol sign with ⟨text, offset, rfl⟩
      rfl

theorem Step.points {lexemes : List Lexeme} {error : SyntaxError}
    (read : (Step.read scope lexemes).run = .ok (.error error)) :
    Points (Step.read scope) (DerivesUseStep scope) lexemes error := by
  by_cases plain : Plain lexemes
  · rw [read_of_plain plain] at read
    rcases Attempt.bind_eq_refusal_iff.mp read with refused | ⟨_, _, finished⟩
    case inr => cases finished
    refine (NodeTest.points refused).pass (fun _ => Step.begins_of_begins)
      fun others same refusal refusedThere => ⟨refusal, ?_⟩
    rw [read_of_plain (plain.of_same same)]
    exact Attempt.bind_eq_refusal_iff.mpr (.inl refusedThere)
  · rcases lexemes with _ | ⟨⟨token, text, offset⟩, rest⟩
    · exact absurd (by simp [Plain]) plain
    · cases token with
      | dot | dotDot => cases read
      | atSign =>
          rcases Attempt.bind_eq_refusal_iff.mp read with refused | ⟨_, _, finished⟩
          case inr => cases finished
          refine @Points.lift _ _ _ _ _ _ _ _ _ [⟨.atSign, text, offset⟩] _
            (NameTest.points refused) ?_ ?_
          · rintro symbols ⟨others, test, lexable, derived⟩
            exact ⟨others, .attribute test, lexable, .ofAttribute derived⟩
          · intro first others _ stuck lexemes there
            rcases exists_cons_of_begins there with ⟨head, tail, rfl, atSign, begins⟩
            rcases Lexeme.eq_of_symbol atSign with ⟨_, _, rfl⟩
            rcases stuck tail begins with ⟨refusal, refusedThere⟩
            exact ⟨refusal, Attempt.bind_eq_refusal_iff.mpr (.inl refusedThere)⟩
      | _ => exact absurd (by simp [Plain]) plain

theorem Step.diagnoses (scope : PrefixScope) :
    Diagnoses (Step.read scope) (DerivesUseStep scope) where
  steady := fun read _ _ _ same follows => Step.steady read same follows
  points := Step.points

end Key

end ResultTree
