import ResultTree.Proofs.Alias.Declaration
import ResultTree.Proofs.Key.Declaration
import ResultTree.Proofs.Stylesheet.Compilation

namespace ResultTree.Stylesheet

/-! What the nodes of a document say to a draft. A node declares an alias, or it
defines a key, or it means to do so and does not, or it is none of a draft's
business. Nothing but the node and the scope there decides this, and nothing but this
decides what a draft makes of the node. -/

/-! ## Declarations -/

structure Instruction (document : Document) (id : NodeId) (name : String) : Prop where
  inNamespace : document.namespaceUri? id = .ok (some transformUri)
  named : document.localName? id = .ok (some name)

structure DeclaresAlias (document : Document) (id : NodeId) (source target : String) :
    Prop where
  instruction : Instruction document id "namespace-alias"
  states : AliasDeclaration.States document id source target

structure DeclaresKey (document : Document) (id : NodeId) (definition : Key.Definition) :
    Prop where
  instruction : Instruction document id "key"
  states : Key.Declaration.States document id definition

/-- A declaration that does not state what it has to. -/
inductive Malformed (document : Document) (id : NodeId) : Prop
  | ofAlias (instruction : Instruction document id "namespace-alias")
      (stateless : ∀ source target, ¬ AliasDeclaration.States document id source target)
  | ofKey (instruction : Instruction document id "key")
      (stateless : ∀ definition, ¬ Key.Declaration.States document id definition)

def DeclarationKind.name : DeclarationKind → String
  | .alias => "namespace-alias"
  | .key => "key"

variable {document : Document} {id : NodeId} {draft changed : Draft}

theorem DeclarationKind.of?_eq_ok_some_iff {kind : DeclarationKind} :
    of? document id = .ok (some kind) ↔ Instruction document id kind.name := by
  constructor
  · intro told
    obtain ⟨uri, uriKnown, told⟩ := Reading.bind_eq_ok_iff.mp told
    split at told
    · next inNamespace =>
        obtain ⟨name, nameKnown, told⟩ := Reading.bind_eq_ok_iff.mp told
        refine ⟨inNamespace ▸ uriKnown, ?_⟩
        split at told <;> cases told <;> exact nameKnown
    · cases told
  · intro instruction
    cases kind <;>
      simp [of?, instruction.inNamespace, instruction.named, DeclarationKind.name]

theorem Instruction.name_eq {name other : String}
    (instruction : Instruction document id name) (same : Instruction document id other) :
    name = other :=
  Option.some.inj (Except.ok.inj (instruction.named.symm.trans same.named))

theorem Malformed.not_declaresAlias (malformed : Malformed document id)
    {source target : String} :
    ¬ DeclaresAlias document id source target := by
  intro declares
  cases malformed with
  | ofAlias _ stateless => exact stateless source target declares.states
  | ofKey instruction =>
      exact absurd (instruction.name_eq declares.instruction) (by decide)

theorem Malformed.not_declaresKey (malformed : Malformed document id)
    {definition : Key.Definition} : ¬ DeclaresKey document id definition := by
  intro declares
  cases malformed with
  | ofAlias instruction =>
      exact absurd (instruction.name_eq declares.instruction) (by decide)
  | ofKey _ stateless => exact stateless definition declares.states

/-! ## Statements -/

inductive Statement
  | declares (declaration : AliasDeclaration)
  | defines (definition : Key.Definition)
  | rejected (errors : List Diagnostic)
  | other

namespace Statement

def ofAlias : Except Diagnostic AliasDeclaration → Statement
  | .ok declaration => .declares declaration
  | .error diagnostic => .rejected [diagnostic]

def ofKey : Except (List Diagnostic) Key.Definition → Statement
  | .ok definition => .defines definition
  | .error diagnostics => .rejected diagnostics

def read (document : Document) (id : NodeId) : Reading Statement := do
  match ← DeclarationKind.of? document id with
  | some .alias => return .ofAlias (← (AliasDeclaration.read document id).run)
  | some .key =>
      let declaration ← Key.Declaration.read document id
      return .ofKey (← (declaration.definition (.ofNode document id)).run)
  | none => return .other

def Holds (document : Document) (id : NodeId) : Statement → Prop
  | .declares declaration =>
      declaration.node = id ∧
      DeclaresAlias document id declaration.source declaration.target
  | .defines definition => DeclaresKey document id definition
  | .rejected errors =>
      Malformed document id ∧ errors ≠ [] ∧ ∀ diagnostic ∈ errors, diagnostic.Blames id
  | .other => ∀ kind : DeclarationKind, ¬ Instruction document id kind.name

theorem holds_ofAlias (instruction : Instruction document id "namespace-alias")
    {result : Except Diagnostic AliasDeclaration}
    (answered : (AliasDeclaration.read document id).run = .ok result) :
    (ofAlias result).Holds document id := by
  cases result with
  | ok declaration =>
      obtain ⟨same, _, states⟩ := AliasDeclaration.read_eq_ok_iff.mp answered
      exact ⟨same, instruction, states⟩
  | error diagnostic =>
      have blames := AliasDeclaration.blames_of_read answered
      refine ⟨.ofAlias instruction fun source target states => ?_, by simp [blames]⟩
      obtain ⟨declaration, same, _⟩ := AliasDeclaration.run_read_of_states states answered
      cases same

theorem holds_ofKey (instruction : Instruction document id "key")
    {declaration : Key.Declaration}
    (known : Key.Declaration.read document id = .ok declaration)
    {result : Except (List Diagnostic) Key.Definition}
    (answered : (declaration.definition (.ofNode document id)).run = .ok result) :
    (ofKey result).Holds document id := by
  cases result with
  | ok definition =>
      exact ⟨instruction, (Key.Declaration.definition_eq_ok_iff known).mp answered⟩
  | error diagnostics =>
      have blames := Key.Declaration.blames_of_definition answered
      rw [Key.Declaration.node_of_read known] at blames
      refine ⟨.ofKey instruction fun definition states => ?_, blames⟩
      cases answered.symm.trans ((Key.Declaration.definition_eq_ok_iff known).mpr states)

theorem holds_of_read {statement : Statement} (told : read document id = .ok statement) :
    statement.Holds document id := by
  obtain ⟨kind?, kindKnown, told⟩ := Reading.bind_eq_ok_iff.mp told
  match kind? with
  | some .alias =>
      obtain ⟨result, answered, same⟩ := Reading.bind_eq_ok_iff.mp told
      cases same
      exact holds_ofAlias (DeclarationKind.of?_eq_ok_some_iff.mp kindKnown) answered
  | some .key =>
      obtain ⟨declaration, known, told⟩ := Reading.bind_eq_ok_iff.mp told
      obtain ⟨result, answered, same⟩ := Reading.bind_eq_ok_iff.mp told
      cases same
      exact holds_ofKey (DeclarationKind.of?_eq_ok_some_iff.mp kindKnown) known answered
  | none =>
      cases told
      intro kind instruction
      cases kindKnown.symm.trans (DeclarationKind.of?_eq_ok_some_iff.mpr instruction)

variable {statement : Statement}

theorem declaresAlias_iff (told : read document id = .ok statement)
    {source target : String} :
    DeclaresAlias document id source target ↔
      ∃ declaration, statement = .declares declaration ∧ declaration.node = id ∧
        declaration.source = source ∧ declaration.target = target := by
  have holds := holds_of_read told
  constructor
  · intro declares
    have kind : DeclarationKind.of? document id = .ok (some .alias) :=
      DeclarationKind.of?_eq_ok_some_iff.mpr declares.instruction
    rw [read, kind, Reading.ok_bind] at told
    obtain ⟨result, answered, same⟩ := Reading.bind_eq_ok_iff.mp told
    obtain ⟨declaration, rfl, stated⟩ :=
      AliasDeclaration.run_read_of_states declares.states answered
    cases same
    exact ⟨declaration, rfl, holds.1, stated⟩
  · rintro ⟨declaration, rfl, _, rfl, rfl⟩
    exact holds.2

theorem declaresKey_iff (told : read document id = .ok statement)
    {definition : Key.Definition} :
    DeclaresKey document id definition ↔ statement = .defines definition := by
  constructor
  · intro declares
    have kind : DeclarationKind.of? document id = .ok (some .key) :=
      DeclarationKind.of?_eq_ok_some_iff.mpr declares.instruction
    rw [read, kind, Reading.ok_bind] at told
    obtain ⟨declaration, known, told⟩ := Reading.bind_eq_ok_iff.mp told
    have stated := (Key.Declaration.definition_eq_ok_iff known).mpr declares.states
    rw [stated] at told
    cases told
    rfl
  · rintro rfl
    exact holds_of_read told

theorem malformed_iff (told : read document id = .ok statement) :
    Malformed document id ↔ ∃ errors, statement = .rejected errors := by
  have holds := holds_of_read told
  constructor
  · intro malformed
    cases statement with
    | declares declaration => exact absurd holds.2 malformed.not_declaresAlias
    | defines definition => exact absurd holds malformed.not_declaresKey
    | rejected errors => exact ⟨errors, rfl⟩
    | other =>
        cases malformed with
        | ofAlias instruction => exact absurd instruction (holds .alias)
        | ofKey instruction => exact absurd instruction (holds .key)
  · rintro ⟨errors, rfl⟩
    exact holds.1

/-! ## What a draft makes of them -/

def aliases (table : AliasTable) : Statement → AliasTable
  | .declares declaration =>
      table.declare declaration.source ⟨declaration.target, declaration.node⟩
  | _ => table

def keys (definitions : Key.Definitions) : Statement → Key.Definitions
  | .defines definition => definitions.add definition
  | _ => definitions

def errors : Statement → List Diagnostic
  | .rejected errors => errors
  | _ => []

theorem blames_of_mem_errors (told : read document id = .ok statement)
    {diagnostic : Diagnostic} (member : diagnostic ∈ statement.errors) :
    diagnostic.Blames id := by
  have holds := holds_of_read told
  cases statement with
  | rejected errors => exact holds.2.2 diagnostic member
  | declares | defines | other => cases member

theorem errors_ne_nil_iff (told : read document id = .ok statement) :
    statement.errors ≠ [] ↔ Malformed document id := by
  have holds := holds_of_read told
  rw [malformed_iff told]
  cases statement with
  | rejected errors => simp [Statement.errors, holds.2.1]
  | declares | defines | other => simp [Statement.errors]

end Statement

/-- What a draft makes of a statement: at most, there is something to remark on besides
what the statement is rejected for. -/
structure Draft.Takes (draft : Draft) (statement : Statement) (changed : Draft) :
    Prop where
  aliases : changed.aliases = statement.aliases draft.aliases
  keys : changed.keys = statement.keys draft.keys
  queue : ∃ offered, changed.queue = draft.queue.addAll offered ∧
    (∀ diagnostic ∈ offered, diagnostic.Coded) ∧
    offered.filter Diagnostic.isError = statement.errors

theorem Draft.takes_of_registerAlias {accepted : Bool}
    (registered : draft.registerAlias document id = .ok (accepted, changed)) :
    ∃ result, (AliasDeclaration.read document id).run = .ok result ∧
      draft.Takes (.ofAlias result) changed := by
  obtain ⟨registration, outcome, same⟩ := Reading.bind_eq_ok_iff.mp registered
  cases same
  rcases AliasTable.register_cases outcome with
    ⟨declaration, answered, table, remarks⟩ | ⟨diagnostic, answered, rfl⟩
  · have node := (AliasDeclaration.read_eq_ok_iff.mp answered).1
    refine ⟨.ok declaration, answered, ?_, rfl, _, rfl, fun remark member => ?_, ?_⟩
    · simp [report, table, Statement.ofAlias, Statement.aliases, node]
    · exact (remarks remark member).1
    · simpa [List.filter_eq_nil_iff, Statement.ofAlias, Statement.errors] using
        fun remark member => (remarks remark member).2
  · have blames := AliasDeclaration.blames_of_read answered
    refine ⟨.error diagnostic, answered, rfl, rfl, _, rfl, ?_, ?_⟩
    · simpa [Registration.rejected] using blames.coded
    · simp [Registration.rejected, Statement.ofAlias, Statement.errors, blames.error]

theorem Draft.takes_of_registerKey {accepted : Bool}
    (registered : draft.registerKey document id = .ok (accepted, changed)) :
    ∃ declaration result, Key.Declaration.read document id = .ok declaration ∧
      (declaration.definition (.ofNode document id)).run = .ok result ∧
      draft.Takes (.ofKey result) changed := by
  obtain ⟨registration, outcome, same⟩ := Reading.bind_eq_ok_iff.mp registered
  cases same
  obtain ⟨declaration, result, known, answered, rfl⟩ :=
    Key.Definitions.register_cases outcome
  refine ⟨declaration, result, known, answered, ?_⟩
  cases result with
  | ok definition => exact ⟨rfl, rfl, [], rfl, by simp, rfl⟩
  | error diagnostics =>
      have blames := (Key.Declaration.blames_of_definition answered).2
      refine ⟨rfl, rfl, diagnostics, rfl, fun diagnostic member => ?_, ?_⟩
      · exact (blames diagnostic member).coded
      · exact List.filter_eq_self.mpr fun diagnostic member =>
          (blames diagnostic member).error

theorem Draft.takes_of_addDeclaration
    (added : draft.addDeclaration document id = .ok changed) :
    ∃ statement, Statement.read document id = .ok statement ∧
      draft.Takes statement changed := by
  obtain ⟨kind?, kindKnown, added⟩ := Reading.bind_eq_ok_iff.mp added
  match kind? with
  | some .alias =>
      obtain ⟨⟨accepted, left⟩, registered, same⟩ := Reading.bind_eq_ok_iff.mp added
      cases same
      obtain ⟨result, answered, takes⟩ := takes_of_registerAlias registered
      exact ⟨_, by simp [Statement.read, kindKnown, answered], takes⟩
  | some .key =>
      obtain ⟨⟨accepted, left⟩, registered, same⟩ := Reading.bind_eq_ok_iff.mp added
      cases same
      obtain ⟨declaration, result, known, answered, takes⟩ :=
        takes_of_registerKey registered
      exact ⟨_, by simp [Statement.read, kindKnown, known, answered], takes⟩
  | none =>
      cases added
      exact ⟨.other, by simp [Statement.read, kindKnown], rfl, rfl, [], rfl, by simp, rfl⟩

theorem Draft.addDeclaration_of_rejected {errors : List Diagnostic}
    (told : Statement.read document id = .ok (.rejected errors)) :
    draft.addDeclaration document id = .ok (draft.report errors) := by
  obtain ⟨kind?, kindKnown, told⟩ := Reading.bind_eq_ok_iff.mp told
  match kind? with
  | some .alias =>
      obtain ⟨result, answered, same⟩ := Reading.bind_eq_ok_iff.mp told
      cases result with
      | ok declaration => cases same
      | error diagnostic =>
          cases same
          simp [addDeclaration, kindKnown, registerAlias,
            AliasTable.register_of_rejected answered, Registration.rejected]
  | some .key =>
      obtain ⟨declaration, known, told⟩ := Reading.bind_eq_ok_iff.mp told
      obtain ⟨result, answered, same⟩ := Reading.bind_eq_ok_iff.mp told
      cases result with
      | ok definition => cases same
      | error diagnostics =>
          cases same
          simp [addDeclaration, kindKnown, registerKey, Key.Definitions.register, known,
            answered, Registration.rejected]
  | none => cases told

theorem Statement.exists_read (reachable : document.Reachable) (known : document.AllKnown)
    (attached : document.Attached id) :
    ∃ statement, read document id = .ok statement := by
  obtain ⟨changed, added, _⟩ :=
    Draft.exists_addDeclaration {} reachable known attached (AliasTable.within_empty _)
  obtain ⟨statement, told, _⟩ := Draft.takes_of_addDeclaration added
  exact ⟨statement, told⟩

end ResultTree.Stylesheet
