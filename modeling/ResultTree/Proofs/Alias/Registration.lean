import ResultTree.Alias.Declaration
import ResultTree.Proofs.Document.Operation
import ResultTree.Proofs.Harmless

namespace ResultTree

/-! Registering aliases. A table remembers which node declared an alias, but not
in which document, and the line of an earlier declaration is looked up in the
document of the later one. That is the only way in which registering can end
other than with an answer. -/

/-- A declaration at a node can be registered where the document is one that operations
lead to, each of its handles denotes something, and the node is there. -/
structure Registrable (document : Document) (node : NodeId) : Prop where
  reachable : document.Reachable
  known : document.AllKnown
  inside : node < document.size

namespace AliasDeclaration

variable {document : Document} {node : NodeId} {declaration : AliasDeclaration}
  {kind : Fault → Prop}

theorem faultsOnly_denoted? (registrable : Registrable document node)
    (searchable : document.Searchable kind node) (written : String) :
    Reading.FaultsOnly kind (denoted? document node written) := by
  have only := registrable.reachable.linked.uri?_findPrefix searchable
    (if written = "#default" then none else some written)
  have filtered := only.map (Option.filter (· ≠ ""))
  simpa [denoted?, map_eq_pure_bind] using filtered

theorem faultsOnly_read (registrable : Registrable document node)
    (searchable : document.Searchable kind node) :
    Attempt.FaultsOnly kind (read document node) := by
  rcases Document.exists_node_iff.mpr registrable.inside with ⟨held, found⟩
  have value (line : Nat) (name : String) :
      Attempt.FaultsOnly kind (required document node line name) := by
    refine (Attempt.FaultsOnly.read
      (registrable.known.attributeValue? registrable.inside name transformUri)).bind
      fun found => ?_
    cases found with
    | some value => exact .pure value
    | none => exact .throw _
  have meaning (line : Nat) (written : String) :
      Attempt.FaultsOnly kind (bound document node line written) := by
    apply (Attempt.FaultsOnly.read
      (faultsOnly_denoted? registrable searchable written)).bind
    intro found
    cases found with
    | some uri => exact .pure uri
    | none => exact .throw _
  refine Attempt.FaultsOnly.bind (.read (.of_eq_ok (Document.line_of found))) fun line =>
    ?_
  refine (value line _).bind fun _ => (value line _).bind fun _ => ?_
  exact (meaning line _).bind fun _ => (meaning line _).bind fun _ => .pure _

theorem exists_line_of_read {result : Except Diagnostic AliasDeclaration}
    (answered : (read document node).run = .ok result) :
    ∃ line, document.line node = .ok line ∧ node < document.size := by
  rw [read, Attempt.run_read_bind] at answered
  obtain ⟨line, lineKnown, _⟩ := Reading.bind_eq_ok_iff.mp answered
  obtain ⟨held, found, _⟩ := Reading.map_eq_ok_iff.mp lineKnown
  exact ⟨line, lineKnown, Document.lt_size_of_node (Document.node_eq_ok_iff.mp found)⟩

theorem replacement_eq_error_iff {earlier : Alias} {fault : Fault} :
    declaration.replacement document earlier = .error fault ↔
      document.size ≤ earlier.declaredBy ∧ fault = .noSuchNode earlier.declaredBy := by
  cases found : document.nodes[earlier.declaredBy]? with
  | none =>
      have outside := Document.nodes_eq_none_iff.mp found
      simp [replacement, Document.line, Document.node_of_none found, outside, eq_comm]
  | some node =>
      have inside := Document.lt_size_of_node found
      simp [replacement, Document.line_of found, Nat.not_le_of_lt inside]

end AliasDeclaration

namespace AliasTable

variable {table reached : AliasTable} {document : Document} {node : NodeId}
  {fault : Fault}

/-- The declaration at a node replaces an alias that was declared by a node which the
document does not have. -/
def Dangles (table : AliasTable) (document : Document) (node : NodeId) (fault : Fault) :
    Prop :=
  ∃ declaration earlier,
    (AliasDeclaration.read document node).run = .ok (.ok declaration) ∧
    table.aliases.get? declaration.source = some earlier ∧
    earlier.target ≠ declaration.target ∧ document.size ≤ earlier.declaredBy ∧
    fault = .noSuchNode earlier.declaredBy

def take (table : AliasTable) (document : Document) (node : NodeId) :
    Reading AliasTable :=
  Registration.table <$> table.register document node

def takeAll (table : AliasTable) (declared : List (Document × NodeId)) :
    Reading AliasTable :=
  declared.foldlM (fun table declaration => table.take declaration.1 declaration.2) table

theorem register_of_read {declaration : AliasDeclaration}
    (read : (AliasDeclaration.read document node).run = .ok (.ok declaration)) :
    table.register document node =
      .accept (table.declare declaration.source ⟨declaration.target, node⟩) <$>
        match table.aliases.get? declaration.source with
        | none => .ok []
        | some earlier =>
            if earlier.target = declaration.target then .ok []
            else ([·]) <$> declaration.replacement document earlier := by
  simp only [register, read, Reading.ok_bind]
  cases table.aliases.get? declaration.source with
  | none => rfl
  | some earlier =>
      simp only
      split
      · rfl
      · cases declaration.replacement document earlier <;> rfl

theorem register_of_rejected {diagnostic : Diagnostic}
    (read : (AliasDeclaration.read document node).run = .ok (.error diagnostic)) :
    table.register document node = .ok (.rejected table [diagnostic]) := by
  simp [register, read]

theorem dangles_iff_of_read {declaration : AliasDeclaration}
    (read : (AliasDeclaration.read document node).run = .ok (.ok declaration)) :
    table.Dangles document node fault ↔
      ∃ earlier, table.aliases.get? declaration.source = some earlier ∧
        earlier.target ≠ declaration.target ∧ document.size ≤ earlier.declaredBy ∧
        fault = .noSuchNode earlier.declaredBy := by
  constructor
  · rintro ⟨other, earlier, otherRead, replaced⟩
    cases read.symm.trans otherRead
    exact ⟨earlier, replaced⟩
  · rintro ⟨earlier, replaced⟩
    exact ⟨declaration, earlier, read, replaced⟩

theorem register_eq_error_iff_of_read {declaration : AliasDeclaration}
    (read : (AliasDeclaration.read document node).run = .ok (.ok declaration)) :
    table.register document node = .error fault ↔ table.Dangles document node fault := by
  rw [register_of_read read, Reading.map_eq_error_iff, dangles_iff_of_read read]
  cases present : table.aliases.get? declaration.source with
  | none => simp
  | some earlier =>
      by_cases same : earlier.target = declaration.target
      · simp [same]
      · simp [same, Reading.map_eq_error_iff, AliasDeclaration.replacement_eq_error_iff]

theorem Dangles.ne_endlessWalk (dangles : table.Dangles document node fault) :
    fault ≠ .endlessWalk := by
  rcases dangles with ⟨_, _, _, _, _, _, rfl⟩
  simp

theorem register_eq_error_iff (registrable : Registrable document node) :
    table.register document node = .error fault ∧ fault ≠ .endlessWalk ↔
      table.Dangles document node fault := by
  have harmless : Reading.Harmless (AliasDeclaration.read document node).run :=
    AliasDeclaration.faultsOnly_read registrable
      (Document.searchable_of_inside registrable.inside)
  constructor
  · rintro ⟨failed, notEndless⟩
    rcases (AliasDeclaration.read document node).run.ok_or_error with
      ⟨result, answered⟩ | ⟨other, unread⟩
    · cases result with
      | error diagnostic =>
          rw [register_of_rejected answered] at failed
          cases failed
      | ok declaration => exact (register_eq_error_iff_of_read answered).mp failed
    · rw [register, unread, Reading.error_bind] at failed
      cases failed
      exact absurd (harmless _ unread) notEndless
  · intro dangles
    rcases id dangles with ⟨declaration, _, read, _⟩
    exact ⟨(register_eq_error_iff_of_read read).mpr dangles, dangles.ne_endlessWalk⟩

theorem take_eq_error_iff (registrable : Registrable document node) :
    table.take document node = .error fault ∧ fault ≠ .endlessWalk ↔
      table.Dangles document node fault := by
  rw [take, Reading.map_eq_error_iff, register_eq_error_iff registrable]

theorem takeAll_eq_error_iff {declared : List (Document × NodeId)}
    (registrable : ∀ declaration ∈ declared, Registrable declaration.1 declaration.2) :
    table.takeAll declared = .error fault ∧ fault ≠ .endlessWalk ↔
      ∃ before document node after reached,
        declared = before ++ (document, node) :: after ∧
        table.takeAll before = .ok reached ∧ reached.Dangles document node fault := by
  unfold takeAll
  rw [Reading.foldlM_eq_error_iff]
  constructor
  · rintro ⟨⟨before, ⟨document, node⟩, after, reached, same, taken, failed⟩, notEndless⟩
    have here := registrable (document, node) (by simp [same])
    exact ⟨before, document, node, after, reached, same, taken,
      (take_eq_error_iff here).mp ⟨failed, notEndless⟩⟩
  · rintro ⟨before, document, node, after, reached, same, taken, dangles⟩
    have here := registrable (document, node) (by simp [same])
    rcases (take_eq_error_iff here).mpr dangles with ⟨failed, notEndless⟩
    exact ⟨⟨before, (document, node), after, reached, same, taken, failed⟩, notEndless⟩

/-! ## Where the entries of a table come from

As long as no document is smaller than one before it, no entry dangles. -/

theorem take_cases (taken : table.take document node = .ok reached) :
    reached = table ∨
      ∃ declaration, (AliasDeclaration.read document node).run = .ok (.ok declaration) ∧
        reached = table.declare declaration.source ⟨declaration.target, node⟩ := by
  rcases Reading.map_eq_ok_iff.mp taken with ⟨registration, registered, same⟩
  rcases (AliasDeclaration.read document node).run.ok_or_error with
    ⟨result, answered⟩ | ⟨other, unread⟩
  · cases result with
    | error diagnostic =>
        rw [register_of_rejected answered] at registered
        cases registered
        exact .inl same.symm
    | ok declaration =>
        rw [register_of_read answered] at registered
        rcases Reading.map_eq_ok_iff.mp registered with ⟨remarks, _, rfl⟩
        exact .inr ⟨declaration, answered, same.symm⟩
  · rw [register, unread, Reading.error_bind] at registered
    cases registered

def Within (table : AliasTable) (size : Nat) : Prop :=
  ∀ source entry, table.aliases.get? source = some entry → entry.declaredBy < size

theorem within_empty (size : Nat) : empty.Within size := by
  intro source entry present
  simp [empty] at present

theorem Within.mono {size other : Nat} (within : table.Within size)
    (larger : size ≤ other) :
    table.Within other :=
  fun source entry present => Nat.lt_of_lt_of_le (within source entry present) larger

theorem Within.take (within : table.Within document.size)
    (taken : table.take document node = .ok reached) : reached.Within document.size := by
  rcases take_cases taken with rfl | ⟨declaration, read, rfl⟩
  · exact within
  · obtain ⟨_, _, inside⟩ := AliasDeclaration.exists_line_of_read read
    intro source entry present
    by_cases same : source = declaration.source
    · subst same
      simp only [declare, OrderedMap.insert, OrderedMap.get?_update_same,
        Option.some.injEq] at present
      exact present ▸ inside
    · rw [declare, OrderedMap.insert, OrderedMap.get?_update_other _ same] at present
      exact within source entry present

theorem Within.not_dangles (within : table.Within document.size) :
    ¬ table.Dangles document node fault := by
  rintro ⟨declaration, earlier, _, present, _, outside, _⟩
  exact absurd outside (Nat.not_le_of_lt (within _ _ present))

theorem Within.faultsOnly_register {kind : Fault → Prop}
    (within : table.Within document.size) (registrable : Registrable document node)
    (searchable : document.Searchable kind node) :
    Reading.FaultsOnly kind (table.register document node) := by
  have readable : Reading.FaultsOnly kind (AliasDeclaration.read document node).run :=
    AliasDeclaration.faultsOnly_read registrable searchable
  apply readable.bind
  intro result answered
  cases result with
  | error diagnostic => exact .ok _
  | ok declaration =>
      intro fault failed
      have dangles : table.Dangles document node fault := by
        apply (register_eq_error_iff_of_read answered).mp
        rw [register, answered]
        exact failed
      exact absurd dangles within.not_dangles

end AliasTable

end ResultTree
