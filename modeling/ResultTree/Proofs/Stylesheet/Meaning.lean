import ResultTree.Proofs.Stylesheet.Statement

namespace ResultTree.Stylesheet

/-! What a document means as a stylesheet. Of the aliases that the children of its
document element declare for a namespace, the last one counts; of the definitions that
they make of a key, all count, in order. Children that fail to declare anything count
for nothing. -/

/-- The last of some nodes to declare an alias for a namespace, with the one in the
result that it declares. -/
def LastAlias (document : Document) (ids : List NodeId) (uri target : String) : Prop :=
  ∃ before id after, ids = before ++ id :: after ∧ DeclaresAlias document id uri target ∧
    ∀ later ∈ after, ∀ other, ¬ DeclaresAlias document later uri other

inductive Defines (document : Document) (name : Key.Name) :
    List NodeId → List Key.Definition → Prop
  | nil : Defines document name [] []
  | take {id : NodeId} {ids : List NodeId} {definition : Key.Definition}
      {definitions : List Key.Definition} (declares : DeclaresKey document id definition)
      (named : definition.name = name) (rest : Defines document name ids definitions) :
      Defines document name (id :: ids) (definition :: definitions)
  | skip {id : NodeId} {ids : List NodeId} {definitions : List Key.Definition}
      (silent : ∀ definition, DeclaresKey document id definition → definition.name ≠ name)
      (rest : Defines document name ids definitions) :
      Defines document name (id :: ids) definitions

variable {document : Document} {ids : List NodeId} {id : NodeId} {draft reached : Draft}
  {uri target : String} {name : Key.Name}

/-! ## Aliases -/

section

variable {α β : Type} {tells : α → β → Prop} {items : List α} {item : α} {told : β}

def LastTold (tells : α → β → Prop) (items : List α) (told : β) : Prop :=
  ∃ before item after, items = before ++ item :: after ∧ tells item told ∧
    ∀ later ∈ after, ∀ other, ¬ tells later other

theorem lastTold_append_singleton_iff :
    LastTold tells (items ++ [item]) told ↔
      tells item told ∨ (∀ other, ¬ tells item other) ∧ LastTold tells items told := by
  constructor
  · rintro ⟨before, telling, after, same, holds, last⟩
    rcases after.eq_nil_or_concat with rfl | ⟨after, final, rfl⟩
    · obtain ⟨_, ⟨⟩⟩ := List.append_inj' same rfl
      exact .inl holds
    · rw [List.concat_eq_append, ← List.cons_append, ← List.append_assoc] at same
      obtain ⟨rfl, ⟨⟩⟩ := List.append_inj' same rfl
      exact .inr ⟨last item (by simp), before, telling, after, rfl, holds,
        fun later member => last later (by simp [member])⟩
  · rintro (holds | ⟨silent, before, telling, after, rfl, holds, last⟩)
    · exact ⟨items, item, [], rfl, holds, by simp⟩
    · refine ⟨before, telling, after ++ [item], by simp, holds, fun later member => ?_⟩
      rcases List.mem_append.mp member with member | member
      · exact last later member
      · exact List.mem_singleton.mp member ▸ silent

theorem exists_lastTold_iff :
    (∃ told, LastTold tells items told) ↔ ∃ item ∈ items, ∃ told, tells item told := by
  induction items using List.reverseRecOn with
  | nil => simp [LastTold]
  | append_singleton items item induction =>
      simp only [lastTold_append_singleton_iff, exists_or, exists_and_left, induction,
        List.mem_append, List.mem_singleton, or_and_right, exists_eq_left]
      by_cases holds : ∃ told, tells item told
      · simp [holds]
      · simp [not_exists.mp holds]

end

theorem lastAlias_append_singleton_iff :
    LastAlias document (ids ++ [id]) uri target ↔
      DeclaresAlias document id uri target ∨
        (∀ other, ¬ DeclaresAlias document id uri other) ∧
        LastAlias document ids uri target :=
  lastTold_append_singleton_iff

theorem exists_lastAlias_iff :
    (∃ target, LastAlias document ids uri target) ↔
      ∃ id ∈ ids, ∃ target, DeclaresAlias document id uri target :=
  exists_lastTold_iff

theorem get?_aliases_of_takes {statement : Statement} {changed : Draft}
    (told : Statement.read document id = .ok statement)
    (takes : draft.Takes statement changed) :
    changed.aliases.get? uri = some target ↔
      DeclaresAlias document id uri target ∨
        (∀ other, ¬ DeclaresAlias document id uri other) ∧
          draft.aliases.get? uri = some target := by
  simp only [Statement.declaresAlias_iff told, takes.aliases]
  cases statement with
  | declares declaration =>
      have node := (Statement.holds_of_read told).1
      by_cases same : uri = declaration.source
      · subst same
        simp [Statement.aliases, node]
      · simp [Statement.aliases, AliasTable.get?_declare_other _ same, Ne.symm same]
  | defines | rejected | other => simp [Statement.aliases]

theorem get?_aliases_of_foldlM (started : draft.aliases = .empty)
    (added : ids.foldlM (Draft.addDeclaration document) draft = .ok reached) :
    reached.aliases.get? uri = some target ↔ LastAlias document ids uri target := by
  induction ids using List.reverseRecOn generalizing reached target with
  | nil =>
      cases added
      simp [started, AliasTable.get?, AliasTable.empty, LastAlias]
  | append_singleton ids id induction =>
      rw [List.foldlM_append] at added
      obtain ⟨before, addedBefore, added⟩ := Reading.bind_eq_ok_iff.mp added
      obtain ⟨changed, added, same⟩ := Reading.bind_eq_ok_iff.mp added
      cases same
      obtain ⟨statement, told, takes⟩ := Draft.takes_of_addDeclaration added
      rw [get?_aliases_of_takes told takes, lastAlias_append_singleton_iff,
        induction addedBefore]

/-! ## Keys -/

theorem Defines.append {more : List NodeId} {definitions others : List Key.Definition}
    (first : Defines document name ids definitions)
    (second : Defines document name more others) :
    Defines document name (ids ++ more) (definitions ++ others) := by
  induction first with
  | nil => exact second
  | take declares named _ induction => exact .take declares named induction
  | skip silent _ induction => exact .skip silent induction

theorem get?_keys_of_foldlM (started : draft.keys = .empty)
    (added : ids.foldlM (Draft.addDeclaration document) draft = .ok reached) :
    ∃ definitions, Defines document name ids definitions ∧
      reached.keys.get? name = if definitions = [] then none else some definitions := by
  induction ids using List.reverseRecOn generalizing reached with
  | nil =>
      cases added
      exact ⟨[], .nil, by simp [started]⟩
  | append_singleton ids id induction =>
      rw [List.foldlM_append] at added
      obtain ⟨before, addedBefore, added⟩ := Reading.bind_eq_ok_iff.mp added
      obtain ⟨changed, added, same⟩ := Reading.bind_eq_ok_iff.mp added
      cases same
      obtain ⟨statement, told, takes⟩ := Draft.takes_of_addDeclaration added
      obtain ⟨definitions, defines, known⟩ := induction addedBefore
      have declares := @Statement.declaresKey_iff _ _ _ told
      rw [takes.keys]
      have unchanged (silent : ∀ definition, DeclaresKey document id definition →
          definition.name ≠ name) : Defines document name (ids ++ [id]) definitions := by
        simpa using defines.append (.skip silent .nil)
      cases statement with
      | defines definition =>
          rw [Statement.keys, Key.Definitions.get?_add, known]
          split
          · next same =>
              have here : Defines document name [id] [definition] :=
                .take (declares.mpr rfl) same .nil
              refine ⟨definitions ++ [definition], defines.append here, ?_⟩
              split <;> simp_all
          · next different =>
              refine ⟨definitions, unchanged fun other otherDeclares => ?_, rfl⟩
              cases declares.mp otherDeclares
              exact different
      | declares | rejected | other =>
          refine ⟨definitions, unchanged fun other otherDeclares => ?_, known⟩
          cases declares.mp otherDeclares

/-! ## A document -/

theorem finish_report_start (config : Diagnostic.Config) (diagnostic : Diagnostic) :
    (Draft.report { queue := { config } } [diagnostic]).finish = ⟨{}, [diagnostic]⟩ := by
  have taken : (Diagnostic.Queue.add { config } diagnostic).2.entries = [diagnostic] := by
    have kept : Diagnostic.Queue.drops { config } diagnostic = false := by
      cases bound : config.errorLimit <;>
        simp [Diagnostic.Queue.drops, Diagnostic.Queue.limitReached, bound]
    simp [Diagnostic.Queue.add, kept]
  simp [Draft.report, Draft.finish, Diagnostic.Queue.addAll, taken,
    Diagnostic.Queue.flush]

/-- Compiling has an answer for every document, whatever the configuration. Without a
stylesheet element it is an empty stylesheet and one error. With one, an alias is what
its last declaration among the children of that element says, and a key has the
definitions that the children make of it, in order. What a child fails to declare
changes neither table, whatever they hold. -/
theorem compile_eq_declared (reachable : document.Reachable) (known : document.AllKnown)
    (config : Diagnostic.Config) :
    ∃ compilation, compile document config = .ok compilation ∧
      ((∀ top, ¬ StylesheetElement document top) → compilation.stylesheet = {} ∧
        ∃ node line found, compilation.diagnostics = [.notAStylesheet node line found]) ∧
      ∀ top, StylesheetElement document top →
        ∃ children, document.children top = .ok children ∧
          (∀ uri target, compilation.stylesheet.aliases.get? uri = some target ↔
            LastAlias document children uri target) ∧
          (∀ uri, compilation.stylesheet.aliases.get? uri = none ↔
            ∀ id ∈ children, ∀ target, ¬ DeclaresAlias document id uri target) ∧
          (∀ name, ∃ definitions, Defines document name children definitions ∧
            compilation.stylesheet.keys.get? name =
              if definitions = [] then none else some definitions) ∧
          ∀ id ∈ children, Malformed document id → ∀ draft : Draft, ∃ changed,
            draft.addDeclaration document id = .ok changed ∧
            changed.aliases = draft.aliases ∧
              changed.keys = draft.keys := by
  obtain ⟨draft, added⟩ :=
    Draft.exists_addDeclarations { queue := { config } } reachable known
      (AliasTable.within_empty _)
  refine ⟨draft.finish, by rw [compile, added]; rfl, ?none, ?some⟩
  all_goals obtain ⟨result, told, added⟩ := Reading.bind_eq_ok_iff.mp added
  case none =>
    intro none
    rcases run_element_cases told with ⟨top, stylesheet, _⟩ | ⟨_, node, line, found, rfl⟩
    · exact absurd stylesheet (none top)
    · rw [← Except.ok.inj added, finish_report_start]
      exact ⟨rfl, node, line, found, rfl⟩
  case some =>
    intro top stylesheet
    cases run_element_of stylesheet told
    obtain ⟨children, listed, attached⟩ := stylesheet.exists_children reachable.linked
    simp only [listed, Reading.ok_bind] at added
    have aliases (uri target : String) :
        draft.aliases.get? uri = some target ↔ LastAlias document children uri target :=
      get?_aliases_of_foldlM rfl added
    refine ⟨children, listed, aliases, fun uri => ?_,
      fun name => get?_keys_of_foldlM rfl added, fun id member malformed draft => ?_⟩
    · have last := (@exists_lastAlias_iff document children uri).not
      simp only [← aliases] at last
      change draft.aliases.get? uri = none ↔ _
      simpa [Option.eq_none_iff_forall_not_mem] using last
    · obtain ⟨statement, said⟩ :=
        Statement.exists_read reachable known (attached id member)
      obtain ⟨errors, rfl⟩ := (Statement.malformed_iff said).mp malformed
      exact ⟨draft.report errors, Draft.addDeclaration_of_rejected said, rfl, rfl⟩

/-- A stylesheet that declares an alias twice, fails to declare it a third time, and
defines a key, once with all attributes and once without any. -/
def redeclaringStylesheet : List Operation :=
  [.appendElement 0 "stylesheet", .declare 1 (some "xsl") transformUri,
    .declare 1 (some "a") "urn:a", .declare 1 (some "b") "urn:b",
    .declare 1 (some "c") "urn:c", .setNamespace 1 (some ⟨1, 0⟩),
    .appendElement 1 "namespace-alias", .setNamespace 2 (some ⟨1, 0⟩),
    .setAttribute 2 "stylesheet-prefix" none "a",
    .setAttribute 2 "result-prefix" none "b",
    .appendElement 1 "namespace-alias", .setNamespace 3 (some ⟨1, 0⟩),
    .setAttribute 3 "stylesheet-prefix" none "a",
    .setAttribute 3 "result-prefix" none "c",
    .appendElement 1 "namespace-alias", .setNamespace 4 (some ⟨1, 0⟩),
    .setAttribute 4 "stylesheet-prefix" none "a",
    .appendElement 1 "key", .setNamespace 5 (some ⟨1, 0⟩),
    .setAttribute 5 "name" none "k",
    .setAttribute 5 "match" none "i", .setAttribute 5 "use" none "@k",
    .appendElement 1 "key", .setNamespace 6 (some ⟨1, 0⟩)]

theorem compile_eq_declared_redeclaringStylesheet :
    ∃ document compilation, Document.after redeclaringStylesheet = some document ∧
      compile document {} = .ok compilation ∧ document.children 1 = .ok [2, 3, 4, 5, 6] ∧
      compilation.stylesheet.aliases.get? "urn:a" = some "urn:c" ∧
      LastAlias document [2, 3, 4, 5, 6] "urn:a" "urn:c" ∧
      Defines document ⟨"k", none⟩ [2, 3, 4, 5, 6]
        [⟨⟨"k", none⟩, "i", "@k", ⟨[[.ofName (.named none "i")]]⟩,
          ⟨[.attribute (.named none "k")]⟩⟩] ∧
      ∀ draft : Draft, ∃ changed, draft.addDeclaration document 6 = .ok changed ∧
        changed.aliases = draft.aliases ∧ changed.keys = draft.keys := by
  have made : ∃ document, Document.after redeclaringStylesheet = some document ∧
      document.AllKnown ∧ StylesheetElement document 1 ∧
      document.children 1 = .ok [2, 3, 4, 5, 6] ∧
      (∃ errors, Statement.read document 6 = .ok (.rejected errors)) ∧
      (fun compilation : Compilation => (compilation.stylesheet.aliases.get? "urn:a",
          compilation.stylesheet.keys.get? ⟨"k", none⟩)) <$> compile document {} =
        .ok (some "urn:c", some [⟨⟨"k", none⟩, "i", "@k", ⟨[[.ofName (.named none "i")]]⟩,
          ⟨[.attribute (.named none "k")]⟩⟩]) :=
    ⟨_, rfl, by decide, ⟨rfl, rfl, .inl rfl⟩, rfl, ⟨_, rfl⟩, by decide +kernel⟩
  obtain ⟨document, made, known, stylesheet, listed, ⟨errors, said⟩, compiled⟩ := made
  obtain ⟨compilation, compiled, shown⟩ := Reading.map_eq_ok_iff.mp compiled
  obtain ⟨aliased, defined⟩ := Prod.mk.inj shown
  obtain ⟨other, compiledHere, _, declared⟩ :=
    compile_eq_declared (Document.reachable_of_after made) known {}
  cases compiled.symm.trans compiledHere
  obtain ⟨children, listedHere, last, _, defines, unchanged⟩ := declared 1 stylesheet
  cases listed.symm.trans listedHere
  refine ⟨document, compilation, made, compiled, listed, aliased,
    (last _ _).mp aliased, ?_,
    unchanged 6 (by simp) ((Statement.malformed_iff said).mpr ⟨errors, rfl⟩)⟩
  obtain ⟨definitions, defines, definedHere⟩ := defines ⟨"k", none⟩
  rw [defined] at definedHere
  split at definedHere
  · cases definedHere
  · exact Option.some.inj definedHere ▸ defines

end ResultTree.Stylesheet
