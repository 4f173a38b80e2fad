import ResultTree.Key.Declaration
import ResultTree.Proofs.Diagnostic.Queue
import ResultTree.Proofs.Reading

namespace ResultTree.Key

/-! What a key declaration states. All three of its attributes have to be there, the
prefix of its name has to be bound where it stands, and both of its expressions have
to be readable there. A declaration without one of these is refused, and all that it
is refused for is an error about its node. -/

inductive Name.Expands (scope : PrefixScope) (qname : String) : Name → Prop
  | plain {localName : String} (split : splitQName qname = (none, localName)) :
      Expands scope qname ⟨localName, none⟩
  | qualified {nsPrefix localName uri : String}
      (split : splitQName qname = (some nsPrefix, localName))
      (bound : scope nsPrefix = .ok (some uri)) :
      Expands scope qname ⟨localName, some uri⟩

structure Declaration.States (document : Document) (node : NodeId)
    (definition : Definition) : Prop where
  name : ∃ qname, document.attributeValue? node "name" transformUri = .ok (some qname) ∧
    definition.name.Expands (.ofNode document node) qname
  matchSource :
    document.attributeValue? node "match" transformUri = .ok (some definition.matchSource)
  useSource : document.attributeValue? node "use" transformUri =
    .ok (some definition.useSource)
  pattern : (Pattern.parse definition.matchSource (.ofNode document node)).run =
    .ok (.ok definition.pattern)
  use : (UseExpression.parse definition.useSource (.ofNode document node)).run =
    .ok (.ok definition.use)

theorem Definition.compile_eq_ok_iff {name : Name} {matchSource useSource : String}
    {scope : PrefixScope} {definition : Definition} :
    (compile name matchSource useSource scope).run = .ok (.ok definition) ↔
      definition.name = name ∧ definition.matchSource = matchSource ∧
        definition.useSource = useSource ∧
        (Pattern.parse matchSource scope).run = .ok (.ok definition.pattern) ∧
        (UseExpression.parse useSource scope).run = .ok (.ok definition.use) := by
  simp only [compile, Attempt.bind_eq_ok_iff, Attempt.adapt_eq_ok_iff]
  constructor
  · rintro ⟨pattern, patternRead, use, useRead, same⟩
    cases same
    exact ⟨rfl, rfl, rfl, patternRead, useRead⟩
  · rintro ⟨rfl, rfl, rfl, patternRead, useRead⟩
    exact ⟨_, patternRead, _, useRead, rfl⟩

namespace Declaration

variable {document : Document} {node : NodeId} {scope : PrefixScope}
  {declaration : Declaration}

theorem expand_eq_ok_iff {qname : String} {name : Name} :
    (declaration.expand scope qname).run = .ok (.ok name) ↔ name.Expands scope qname := by
  unfold expand
  constructor
  · intro expanded
    split at expanded
    · next split =>
        cases expanded
        exact .plain split
    · next split =>
        rw [Attempt.run_read_bind] at expanded
        obtain ⟨_ | uri, bound, same⟩ := Reading.bind_eq_ok_iff.mp expanded
        · cases same
        · cases same
          exact .qualified split bound
  · intro expands
    cases expands with
    | plain split => simp [split]
    | qualified split bound => simp [split, bound]

/-- A declaration is read as what its node states. -/
theorem definition_eq_ok_iff (read : Declaration.read document node = .ok declaration)
    {definition : Definition} :
    (declaration.definition (.ofNode document node)).run = .ok (.ok definition) ↔
      States document node definition := by
  obtain ⟨line, _, read⟩ := Reading.bind_eq_ok_iff.mp read
  obtain ⟨qname?, nameRead, read⟩ := Reading.bind_eq_ok_iff.mp read
  obtain ⟨matchSource?, matchRead, read⟩ := Reading.bind_eq_ok_iff.mp read
  obtain ⟨useSource?, useRead, same⟩ := Reading.bind_eq_ok_iff.mp read
  cases same
  constructor
  · intro stated
    unfold Declaration.definition at stated
    split at stated
    · next qname matchSource useSource named matched used =>
        cases named
        cases matched
        cases used
        simp only [Attempt.bind_eq_ok_iff, Attempt.adapt_eq_ok_iff, expand_eq_ok_iff,
          Definition.compile_eq_ok_iff] at stated
        obtain ⟨name, expands, rfl, rfl, rfl, pattern, use⟩ := stated
        exact ⟨⟨qname, nameRead, expands⟩, matchRead, useRead, pattern, use⟩
    · cases stated
  · intro states
    obtain ⟨qname, named, expands⟩ := states.name
    cases nameRead.symm.trans named
    cases matchRead.symm.trans states.matchSource
    cases useRead.symm.trans states.useSource
    simp only [Declaration.definition, Attempt.bind_eq_ok_iff, Attempt.adapt_eq_ok_iff,
      expand_eq_ok_iff, Definition.compile_eq_ok_iff]
    refine ⟨_, expands, ?_⟩
    simp [states.pattern, states.use]

/-! ## Refusals -/

theorem blames_of_expand {qname : String} {diagnostic : Diagnostic}
    (refused : (declaration.expand scope qname).run = .ok (.error diagnostic)) :
    diagnostic.Blames declaration.node := by
  unfold expand at refused
  split at refused
  · cases refused
  · rw [Attempt.run_read_bind] at refused
    obtain ⟨_ | uri, _, same⟩ := Reading.bind_eq_ok_iff.mp refused
    · cases same
      exact Diagnostic.blames_unboundPrefix rfl (by decide) _ _ _
    · cases same

theorem blames_of_missing {diagnostic : Diagnostic}
    (member : diagnostic ∈ declaration.missing) :
    diagnostic.Blames declaration.node := by
  obtain ⟨⟨name, value⟩, _, reported⟩ := List.mem_filterMap.mp member
  simp only [Option.ite_none_right_eq_some, Option.some.injEq] at reported
  exact reported.2 ▸ Diagnostic.blames_missingKeyAttribute _ _ _

theorem missing_ne_nil (incomplete : declaration.qname? = none ∨
    declaration.matchSource? = none ∨ declaration.useSource? = none) :
    declaration.missing ≠ [] := by
  rw [ne_eq, missing, List.filterMap_eq_nil_iff]
  intro complete
  simp only [List.forall_mem_cons, ite_eq_right_iff, reduceCtorEq, imp_false] at complete
  obtain ⟨named, matched, used, _⟩ := complete
  rcases incomplete with absent | absent | absent
  · simp [absent] at named
  · simp [absent] at matched
  · simp [absent] at used

theorem blames_of_definition {errors : List Diagnostic}
    (refused : (declaration.definition scope).run = .ok (.error errors)) :
    errors ≠ [] ∧ ∀ diagnostic ∈ errors, diagnostic.Blames declaration.node := by
  unfold Declaration.definition at refused
  split at refused
  · next qname matchSource useSource _ _ _ =>
      rcases Attempt.bind_eq_refusal_iff.mp refused with refused | ⟨name, _, refused⟩
      · obtain ⟨cause, unbound, rfl⟩ := Attempt.adapt_eq_refusal_iff.mp refused
        refine ⟨by simp, fun diagnostic member => ?_⟩
        rw [List.mem_singleton.mp member]
        exact blames_of_expand unbound
      · obtain ⟨cause, _, rfl⟩ := Attempt.adapt_eq_refusal_iff.mp refused
        refine ⟨by simp, fun diagnostic member => ?_⟩
        rw [List.mem_singleton.mp member]
        exact Diagnostic.blames_invalidKeyExpression _ _ _ _ _
  · next incomplete =>
      cases refused
      refine ⟨missing_ne_nil ?_, fun diagnostic member => blames_of_missing member⟩
      by_contra complete
      simp only [not_or, ← ne_eq, Option.ne_none_iff_exists'] at complete
      obtain ⟨⟨qname, named⟩, ⟨matchSource, matched⟩, ⟨useSource, used⟩⟩ := complete
      exact incomplete qname matchSource useSource named matched used

theorem node_of_read (read : Declaration.read document node = .ok declaration) :
    declaration.node = node := by
  obtain ⟨line, _, read⟩ := Reading.bind_eq_ok_iff.mp read
  obtain ⟨qname?, _, read⟩ := Reading.bind_eq_ok_iff.mp read
  obtain ⟨matchSource?, _, read⟩ := Reading.bind_eq_ok_iff.mp read
  obtain ⟨useSource?, _, same⟩ := Reading.bind_eq_ok_iff.mp read
  cases same
  rfl

end Declaration

theorem Definitions.get?_add (definitions : Definitions) (definition : Definition)
    {name : Name} :
    (definitions.add definition).get? name =
      if definition.name = name then
        some ((definitions.get? name).getD [] ++ [definition])
      else definitions.get? name := by
  split
  · next same =>
      subst same
      exact OrderedMap.get?_update_same _ _ _
  · next different => exact OrderedMap.get?_update_other _ (Ne.symm different) _

/-- A declaration is either taken or refused, and then it leaves the definitions as they
are. -/
theorem Definitions.register_cases {definitions : Definitions} {document : Document}
    {node : NodeId} {registration : Registration Definitions}
    (registered : definitions.register document node = .ok registration) :
    ∃ declaration result, Declaration.read document node = .ok declaration ∧
      (declaration.definition (.ofNode document node)).run = .ok result ∧
      registration = match result with
        | .ok definition => .accept (definitions.add definition) []
        | .error diagnostics => .rejected definitions diagnostics := by
  obtain ⟨declaration, known, registered⟩ := Reading.bind_eq_ok_iff.mp registered
  obtain ⟨result, answered, same⟩ := Reading.bind_eq_ok_iff.mp registered
  refine ⟨declaration, result, known, answered, ?_⟩
  cases result <;> exact (Except.ok.inj same).symm

end ResultTree.Key
