import ResultTree.Proofs.Alias.Registration
import ResultTree.Proofs.Diagnostic.Queue

namespace ResultTree

namespace AliasDeclaration

/-! What an alias declaration states. Both of its attributes have to be there, and
both of the prefixes that they hold have to denote something where it stands. A
declaration without one of these is refused with an error about its node. -/

/-- What a written prefix denotes at a node. `#default` asks for the default namespace,
and the empty URI stands for nothing. -/
structure Denotes (document : Document) (node : NodeId) (written uri : String) :
    Prop where
  found : ∃ handle binding,
    document.findPrefix node (if written = "#default" then none else some written) =
        .ok (some handle) ∧
      document.binding handle = .ok binding ∧ binding.uri = uri
  nonempty : uri ≠ ""

def States (document : Document) (node : NodeId) (source target : String) : Prop :=
  ∃ stylesheetPrefix resultPrefix,
    document.attributeValue? node "stylesheet-prefix" transformUri =
      .ok (some stylesheetPrefix) ∧
      document.attributeValue? node "result-prefix" transformUri =
        .ok (some resultPrefix) ∧
      Denotes document node stylesheetPrefix source ∧
      Denotes document node resultPrefix target

variable {document : Document} {node : NodeId}

theorem denoted?_eq_some_iff {written uri : String} :
    denoted? document node written = .ok (some uri) ↔
      Denotes document node written uri := by
  constructor
  · intro denoted
    obtain ⟨handle?, found, denoted⟩ := Reading.bind_eq_ok_iff.mp denoted
    obtain ⟨uri?, known, same⟩ := Reading.bind_eq_ok_iff.mp denoted
    obtain ⟨rfl, nonempty⟩ := Option.filter_eq_some_iff.mp (Except.ok.inj same)
    cases handle? with
    | none => cases known
    | some handle =>
        obtain ⟨binding, bound, same⟩ := Reading.bind_eq_ok_iff.mp known
        cases same
        exact ⟨⟨handle, binding, found, bound, rfl⟩, by simpa using nonempty⟩
  · rintro ⟨⟨handle, binding, found, bound, rfl⟩, nonempty⟩
    simp [denoted?, found, Document.uri?, bound, nonempty]

theorem Denotes.unique {written uri other : String}
    (denotes : Denotes document node written uri)
    (otherDenotes : Denotes document node written other) : uri = other := by
  have denoted := denoted?_eq_some_iff.mpr denotes
  cases denoted.symm.trans (denoted?_eq_some_iff.mpr otherDenotes)
  rfl

theorem States.unique {source target otherSource otherTarget : String}
    (states : States document node source target)
    (otherStates : States document node otherSource otherTarget) :
    source = otherSource ∧ target = otherTarget := by
  rcases states with ⟨_, _, stylesheet, result, sourceDenoted, targetDenoted⟩
  rcases otherStates with ⟨_, _, otherStylesheet, otherResult, otherSourceDenoted,
    otherTargetDenoted⟩
  cases stylesheet.symm.trans otherStylesheet
  cases result.symm.trans otherResult
  exact ⟨sourceDenoted.unique otherSourceDenoted, targetDenoted.unique otherTargetDenoted⟩

theorem required_eq_ok_iff {line : Nat} {name value : String} :
    (required document node line name).run = .ok (.ok value) ↔
      document.attributeValue? node name transformUri = .ok (some value) := by
  rw [required, Attempt.run_read_bind, Reading.bind_eq_ok_iff]
  constructor
  · rintro ⟨_ | held, found, same⟩
    · cases same
    · cases same
      exact found
  · exact fun found => ⟨some value, found, rfl⟩

theorem bound_eq_ok_iff {line : Nat} {written uri : String} :
    (bound document node line written).run = .ok (.ok uri) ↔
      Denotes document node written uri := by
  rw [bound, Attempt.run_read_bind, Reading.bind_eq_ok_iff, ← denoted?_eq_some_iff]
  constructor
  · rintro ⟨_ | held, found, same⟩
    · cases same
    · cases same
      exact found
  · exact fun found => ⟨some uri, found, rfl⟩

/-- A declaration is read as what its node states. -/
theorem read_eq_ok_iff {declaration : AliasDeclaration} :
    (read document node).run = .ok (.ok declaration) ↔
      declaration.node = node ∧ document.line node = .ok declaration.line ∧
        States document node declaration.source declaration.target := by
  rw [read, Attempt.run_read_bind, Reading.bind_eq_ok_iff]
  simp only [Attempt.bind_eq_ok_iff, required_eq_ok_iff, bound_eq_ok_iff]
  constructor
  · rintro ⟨line, lineKnown, stylesheetPrefix, first, resultPrefix, second, source,
      sourceDenoted, target, targetDenoted, same⟩
    cases same
    exact ⟨rfl, lineKnown, stylesheetPrefix, resultPrefix, first, second, sourceDenoted,
      targetDenoted⟩
  · rintro ⟨rfl, lineKnown, stylesheetPrefix, resultPrefix, first, second, sourceDenoted,
      targetDenoted⟩
    exact ⟨_, lineKnown, _, first, _, second, _, sourceDenoted, _, targetDenoted, rfl⟩

theorem run_read_of_states {source target : String}
    (states : States document node source target)
    {result : Except Diagnostic AliasDeclaration}
    (answered : (read document node).run = .ok result) :
    ∃ declaration, result = .ok declaration ∧ declaration.source = source ∧
      declaration.target = target := by
  obtain ⟨line, lineKnown, _⟩ := exists_line_of_read answered
  have stated := read_eq_ok_iff.mpr
    (⟨rfl, lineKnown, states⟩ :
      (⟨node, line, source, target⟩ : AliasDeclaration).node = node ∧ _)
  exact ⟨_, Except.ok.inj (answered.symm.trans stated), rfl, rfl⟩

/-! ## Refusals -/

theorem blames_of_required {line : Nat} {name : String} {diagnostic : Diagnostic}
    (refused : (required document node line name).run = .ok (.error diagnostic)) :
    diagnostic.Blames node := by
  rw [required, Attempt.run_read_bind] at refused
  obtain ⟨_ | held, _, same⟩ := Reading.bind_eq_ok_iff.mp refused
  · cases same
    exact Diagnostic.blames_missingAliasAttribute _ _ _
  · cases same

theorem blames_of_bound {line : Nat} {written : String} {diagnostic : Diagnostic}
    (refused : (bound document node line written).run = .ok (.error diagnostic)) :
    diagnostic.Blames node := by
  rw [bound, Attempt.run_read_bind] at refused
  obtain ⟨_ | held, _, same⟩ := Reading.bind_eq_ok_iff.mp refused
  · cases same
    exact Diagnostic.blames_unboundPrefix rfl (by decide) _ _ _
  · cases same

theorem blames_of_read {diagnostic : Diagnostic}
    (refused : (read document node).run = .ok (.error diagnostic)) :
    diagnostic.Blames node := by
  rw [read, Attempt.run_read_bind] at refused
  obtain ⟨line, _, refused⟩ := Reading.bind_eq_ok_iff.mp refused
  rcases Attempt.bind_eq_refusal_iff.mp refused with refused | ⟨_, _, refused⟩
  · exact blames_of_required refused
  rcases Attempt.bind_eq_refusal_iff.mp refused with refused | ⟨_, _, refused⟩
  · exact blames_of_required refused
  rcases Attempt.bind_eq_refusal_iff.mp refused with refused | ⟨_, _, refused⟩
  · exact blames_of_bound refused
  rcases Attempt.bind_eq_refusal_iff.mp refused with refused | ⟨_, _, refused⟩
  · exact blames_of_bound refused
  · cases refused

theorem isError_of_replacement {declaration : AliasDeclaration} {earlier : Alias}
    {remark : Diagnostic}
    (remarked : declaration.replacement document earlier = .ok remark) :
    remark.Coded ∧ remark.isError = false := by
  obtain ⟨line, _, same⟩ := Reading.bind_eq_ok_iff.mp remarked
  cases same
  exact ⟨rfl, rfl⟩

end AliasDeclaration

/-- A declaration is either taken, with no more than a warning, or it is refused and
leaves the table as it is. -/
theorem AliasTable.register_cases {table : AliasTable} {document : Document}
    {node : NodeId} {registration : Registration AliasTable}
    (registered : table.register document node = .ok registration) :
    (∃ declaration, (AliasDeclaration.read document node).run = .ok (.ok declaration) ∧
      registration.table = table.declare declaration.source ⟨declaration.target, node⟩ ∧
      ∀ remark ∈ registration.diagnostics, remark.Coded ∧ remark.isError = false) ∨
    ∃ diagnostic, (AliasDeclaration.read document node).run = .ok (.error diagnostic) ∧
      registration = .rejected table [diagnostic] := by
  obtain ⟨result, answered, _⟩ := Reading.bind_eq_ok_iff.mp registered
  cases result with
  | error diagnostic =>
      rw [register_of_rejected answered] at registered
      exact .inr ⟨diagnostic, answered, (Except.ok.inj registered).symm⟩
  | ok declaration =>
      rw [register_of_read answered] at registered
      obtain ⟨remarks, remarked, rfl⟩ := Reading.map_eq_ok_iff.mp registered
      refine .inl ⟨declaration, answered, rfl, ?_⟩
      have silent : ∀ remark ∈ ([] : List Diagnostic), remark.Coded ∧
          remark.isError = false := by
        simp
      split at remarked
      · exact Except.ok.inj remarked ▸ silent
      · split at remarked
        · exact Except.ok.inj remarked ▸ silent
        · obtain ⟨remark, replaced, rfl⟩ := Reading.map_eq_ok_iff.mp remarked
          simpa [Registration.accept]
            using AliasDeclaration.isError_of_replacement replaced

end ResultTree
