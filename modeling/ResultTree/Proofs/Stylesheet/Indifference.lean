import ResultTree.Proofs.Stylesheet.Rejection

namespace ResultTree.Stylesheet

/-! What a configuration decides. It decides which diagnostics are handed over, and
nothing else: whatever a queue drops, registration goes on in the same way. So compiling
under a configuration is compiling under none, with a look through the configured queue
at the end. -/

/-- The draft with a queue of another configuration, which was offered what the queue of
the draft holds. -/
def Draft.under (config : Diagnostic.Config) (draft : Draft) : Draft :=
  { draft with queue := Diagnostic.Queue.addAll { config } draft.queue.entries }

variable {document : Document} {id : NodeId} {draft reached : Draft}
  {config : Diagnostic.Config}

/-! ## Compiling under a configuration -/

theorem Draft.report_under (config : Diagnostic.Config) (draft : Draft)
    (unlimited : draft.queue.config = .unlimited) (diagnostics : List Diagnostic) :
    (draft.under config).report diagnostics =
      (draft.report diagnostics).under config := by
  simp only [report, under, Diagnostic.Queue.entries_addAll_unlimited unlimited,
    Diagnostic.Queue.addAll_append]

theorem Draft.registerAlias_under (unlimited : draft.queue.config = .unlimited) :
    (draft.under config).registerAlias document id =
      Prod.map (fun accepted => accepted) (Draft.under config) <$>
        draft.registerAlias document id := by
  apply Reading.bind_eq_map_bind
  intro registration _
  have reported :=
    report_under config { draft with aliases := registration.table } unlimited
      registration.diagnostics
  exact congrArg (fun left => Except.ok (registration.accepted, left)) reported

theorem Draft.registerKey_under (unlimited : draft.queue.config = .unlimited) :
    (draft.under config).registerKey document id =
      Prod.map (fun accepted => accepted) (Draft.under config) <$>
        draft.registerKey document id := by
  apply Reading.bind_eq_map_bind
  intro registration _
  have reported := report_under config { draft with keys := registration.table } unlimited
    registration.diagnostics
  exact congrArg (fun left => Except.ok (registration.accepted, left)) reported

theorem Draft.addDeclaration_under (unlimited : draft.queue.config = .unlimited) :
    (draft.under config).addDeclaration document id =
      Draft.under config <$> draft.addDeclaration document id := by
  apply Reading.bind_eq_map_bind
  intro kind? _
  match kind? with
  | some .alias =>
      simp only [registerAlias_under unlimited]
      cases draft.registerAlias document id <;> rfl
  | some .key =>
      simp only [registerKey_under unlimited]
      cases draft.registerKey document id <;> rfl
  | none => rfl

theorem Draft.foldlM_under {ids : List NodeId}
    (unlimited : draft.queue.config = .unlimited) :
    ids.foldlM (addDeclaration document) (draft.under config) =
      Draft.under config <$> ids.foldlM (addDeclaration document) draft := by
  induction ids generalizing draft with
  | nil => rfl
  | cons id rest induction =>
      rw [List.foldlM_cons, List.foldlM_cons, addDeclaration_under unlimited]
      cases added : draft.addDeclaration document id with
      | error fault => rfl
      | ok next =>
          obtain ⟨statement, _, takes⟩ := takes_of_addDeclaration added
          obtain ⟨offered, queue, _⟩ := takes.queue
          apply induction
          rw [queue, Diagnostic.Queue.config_addAll, unlimited]

theorem Draft.addDeclarations_under (unlimited : draft.queue.config = .unlimited) :
    (draft.under config).addDeclarations document =
      Draft.under config <$> draft.addDeclarations document := by
  apply Reading.bind_eq_map_bind
  intro result _
  cases result with
  | ok top =>
      apply Reading.bind_eq_map_bind
      intro children _
      exact foldlM_under unlimited
  | error diagnostic =>
      exact congrArg Except.ok (report_under config draft unlimited [diagnostic])

theorem compile_under (config : Diagnostic.Config) :
    compile document config = (fun draft => (Draft.under config draft).finish) <$>
      Draft.addDeclarations { queue := { config := .unlimited } } document := by
  have started : ({ queue := { config } } : Draft) =
      Draft.under config { queue := { config := .unlimited } } := rfl
  rw [compile, started, Draft.addDeclarations_under rfl]
  cases Draft.addDeclarations { queue := { config := .unlimited } } document <;> rfl

/-! ## What is handed over -/

theorem Draft.finish_under_sublist :
    (draft.under config).finish.diagnostics.Sublist
      (draft.under .unlimited).finish.diagnostics := by
  apply Diagnostic.Queue.flush_sublist
  obtain ⟨taken, sublist, held⟩ :=
    @Diagnostic.Queue.entries_addAll { config } draft.queue.entries
  rw [under, under, held, Diagnostic.Queue.entries_addAll_unlimited rfl]
  exact sublist

theorem Draft.hasErrors_finish_under
    (coded : ∀ diagnostic ∈ draft.queue.entries, diagnostic.Coded) :
    (draft.under config).finish.hasErrors =
      draft.queue.entries.any Diagnostic.isError := by
  have handed : (draft.under config).finish.hasErrors =
      (draft.under config).queue.entries.any Diagnostic.isError :=
    Diagnostic.Queue.flush_perm.any_eq
  rw [handed, under, Diagnostic.Queue.any_isError_addAll (by simp) coded]
  rfl

theorem any_isError_iff_rejects
    (added : Draft.addDeclarations { queue := { config := .unlimited } } document =
      .ok reached) :
    (∀ diagnostic ∈ reached.queue.entries, diagnostic.Coded) ∧
      (reached.queue.entries.any Diagnostic.isError = true ↔
        ∃ site, Rejects document site) := by
  obtain ⟨errors, offered, told, offers⟩ := exists_offers_of_addDeclarations added
  have held : reached.queue.entries = offered := by
    rw [offers.queue, Diagnostic.Queue.entries_addAll_unlimited rfl, List.nil_append]
  rw [held]
  refine ⟨offers.coded, ?_⟩
  simp only [← mem_documentErrors_iff told]
  constructor
  · intro some
    obtain ⟨diagnostic, member, error⟩ := List.any_eq_true.mp some
    have listed : diagnostic ∈ errors.map Prod.snd := by
      rw [← offers.errors]
      exact List.mem_filter.mpr ⟨member, error⟩
    obtain ⟨⟨site, _⟩, errorMember, rfl⟩ := List.mem_map.mp listed
    exact ⟨site, _, errorMember⟩
  · rintro ⟨site, diagnostic, member⟩
    have listed : diagnostic ∈ offered.filter Diagnostic.isError := by
      rw [offers.errors]
      exact List.mem_map_of_mem member
    exact List.any_eq_true.mpr ⟨diagnostic, List.mem_filter.mp listed⟩

/-- Two configurations give the same stylesheet. The diagnostics under one are some of
those under none, in the same order, and there are errors among them under all or under
none: if and only if the document, or a declaration in it, is rejected. -/
theorem compile_indifferent (reachable : document.Reachable) (known : document.AllKnown)
    (config other : Diagnostic.Config) :
    ∃ compilation compiled all, compile document config = .ok compilation ∧
      compile document other = .ok compiled ∧ compile document .unlimited = .ok all ∧
      compilation.stylesheet = compiled.stylesheet ∧
      compilation.diagnostics.Sublist all.diagnostics ∧
      compilation.hasErrors = compiled.hasErrors ∧
      (compilation.hasErrors = true ↔ ∃ site, Rejects document site) := by
  obtain ⟨draft, added⟩ :=
    Draft.exists_addDeclarations { queue := { config := .unlimited } } reachable known
      (AliasTable.within_empty _)
  have compiled (config : Diagnostic.Config) :
      compile document config = .ok (draft.under config).finish := by
    rw [compile_under, added]
    rfl
  obtain ⟨coded, rejected⟩ := any_isError_iff_rejects added
  refine ⟨_, _, _, compiled config, compiled other, compiled .unlimited, rfl,
    Draft.finish_under_sublist, ?_, ?_⟩
  · rw [Draft.hasErrors_finish_under coded, Draft.hasErrors_finish_under coded]
  · rw [Draft.hasErrors_finish_under coded, rejected]

def faultyStylesheet : List Operation :=
  [.appendElement 0 "stylesheet", .declare 1 (some "xsl") transformUri,
    .declare 1 (some "a") "urn:a", .setNamespace 1 (some ⟨1, 0⟩),
    .appendElement 1 "key", .setNamespace 2 (some ⟨1, 0⟩),
    .setAttribute 2 "name" none "k", .setAttribute 2 "match" none "i",
    .appendElement 1 "namespace-alias", .setNamespace 3 (some ⟨1, 0⟩),
    .setAttribute 3 "stylesheet-prefix" none "a",
    .setAttribute 3 "result-prefix" none "b",
    .appendElement 1 "namespace-alias", .setNamespace 4 (some ⟨1, 0⟩)]

theorem compile_indifferent_faultyStylesheet :
    ∃ document compilation compiled all, Document.after faultyStylesheet = some document ∧
      compile document ⟨1, true⟩ = .ok compilation ∧
      compile document ⟨0, true⟩ = .ok compiled ∧
      compile document .unlimited = .ok all ∧
      compilation.stylesheet = compiled.stylesheet ∧
      compilation.diagnostics.Sublist all.diagnostics ∧
      compilation.hasErrors = compiled.hasErrors ∧
      (compilation.hasErrors = true ↔ ∃ site, Rejects document site) ∧
      Rejects document (.declaration 3) := by
  have made : ∃ document, Document.after faultyStylesheet = some document ∧
      document.AllKnown ∧
      Rejects document (.declaration 3) := by
    refine ⟨_, rfl, by decide, ?_⟩
    exact @Rejects.declaration _ 1 3 [2, 3, 4] ⟨rfl, rfl, .inl rfl⟩ rfl (by decide)
      ((Statement.malformed_iff rfl).mpr ⟨_, rfl⟩)
  obtain ⟨document, made, known, rejects⟩ := made
  obtain ⟨compilation, compiled, all, indifferent⟩ :=
    compile_indifferent (Document.reachable_of_after made) known ⟨1, true⟩ ⟨0, true⟩
  obtain ⟨first, second, third, stylesheet, sublist, errors, rejected⟩ := indifferent
  exact ⟨document, compilation, compiled, all, made, first, second, third, stylesheet,
    sublist, errors, rejected, rejects⟩

end ResultTree.Stylesheet
