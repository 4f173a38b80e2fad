import ResultTree.Proofs.Stylesheet.Compiled
import ResultTree.Proofs.Stylesheet.Meaning

namespace ResultTree.Stylesheet

/-! Registering aliases call by call, from no aliases on. What a table holds after any
number of calls can be read off the calls that were accepted: for each namespace the last
one counts. A call is either refused, with one error and without any effect on the table,
or accepted, with one remark if it says something else than the one before it. -/

open AliasDeclaration (States)

structure Entry where
  node : NodeId
  accepted : Bool
deriving DecidableEq, Repr

structure Entry.Declares (document : Document) (uri : String) (entry : Entry)
    (declared : Alias) : Prop where
  accepted : entry.accepted = true
  states : States document entry.node uri declared.target
  place : declared.declaredBy = entry.node

def registerNext (document : Document) (made : List Entry × Draft) (node : NodeId) :
    Reading (List Entry × Draft) := do
  let (accepted, draft) ← made.2.registerAlias document node
  return (made.1 ++ [⟨node, accepted⟩], draft)

def Draft.registerEach (draft : Draft) (document : Document) (nodes : List NodeId) :
    Reading (List Entry × Draft) :=
  nodes.foldlM (registerNext document) ([], draft)

variable {document : Document} {node : NodeId} {draft after : Draft} {accepted : Bool}

/-! ## One call -/

inductive Registers (document : Document) (draft : Draft) (node : NodeId) :
    Bool → Draft → Prop
  | refused {error : Diagnostic}
      (silent : ∀ source target, ¬ States document node source target)
      (blames : error.Blames node) :
      Registers document draft node false (draft.report [error])
  | declared {source target : String} (states : States document node source target)
      (same : ∀ earlier, draft.aliases.get? source = some earlier → earlier = target) :
      Registers document draft node true
        { draft with aliases := draft.aliases.declare source ⟨target, node⟩ }
  | redeclared {source target earlier : String} {remark : Diagnostic}
      (states : States document node source target)
      (present : draft.aliases.get? source = some earlier) (different : earlier ≠ target)
      (code : remark.code = .aliasRedeclared) (warning : remark.severity = .warning) :
      Registers document draft node true
        ({ draft with aliases := draft.aliases.declare source ⟨target, node⟩ }.report
          [remark])

theorem warns_of_replacement {declaration : AliasDeclaration} {earlier : Alias}
    {remark : Diagnostic}
    (remarked : declaration.replacement document earlier = .ok remark) :
    remark.code = .aliasRedeclared ∧ remark.severity = .warning := by
  rcases Reading.bind_eq_ok_iff.mp remarked with ⟨line, _, same⟩
  cases same
  exact ⟨rfl, rfl⟩

theorem registers_of_registerAlias
    (called : draft.registerAlias document node = .ok (accepted, after)) :
    Registers document draft node accepted after := by
  rcases Reading.bind_eq_ok_iff.mp called with ⟨registration, registered, same⟩
  cases same
  rcases Reading.bind_eq_ok_iff.mp registered with ⟨result, answered, _⟩
  cases result with
  | error error =>
      rw [AliasTable.register_of_rejected answered] at registered
      cases registered
      apply Registers.refused
      · intro source target states
        rcases AliasDeclaration.run_read_of_states states answered with
          ⟨declaration, same, _⟩
        cases same
      · exact AliasDeclaration.blames_of_read answered
  | ok declaration =>
      rcases AliasDeclaration.read_eq_ok_iff.mp answered with ⟨_, _, states⟩
      rw [AliasTable.register_of_read answered] at registered
      rcases Reading.map_eq_ok_iff.mp registered with ⟨remarks, remarked, rfl⟩
      cases present : draft.aliases.aliases.get? declaration.source with
      | none =>
          rw [present] at remarked
          cases remarked
          apply Registers.declared states
          intro earlier aliased
          simp [AliasTable.get?, present] at aliased
      | some earlier =>
          have aliased : draft.aliases.get? declaration.source = some earlier.target := by
            simp [AliasTable.get?, present]
          by_cases same : earlier.target = declaration.target
          · simp only [present, same, if_true] at remarked
            cases remarked
            apply Registers.declared states
            intro other otherAliased
            cases aliased.symm.trans otherAliased
            exact same
          · simp only [present, same, if_false] at remarked
            rcases Reading.map_eq_ok_iff.mp remarked with ⟨remark, replaced, rfl⟩
            rcases warns_of_replacement replaced with ⟨code, warning⟩
            exact .redeclared states aliased same code warning

theorem Registers.get?_aliases (registers : Registers document draft node accepted after)
    {uri : String} {declared : Alias} :
    after.aliases.aliases.get? uri = some declared ↔
      Entry.Declares document uri ⟨node, accepted⟩ declared ∨
        (∀ other, ¬ Entry.Declares document uri ⟨node, accepted⟩ other) ∧
          draft.aliases.aliases.get? uri = some declared := by
  have taken {source target : String} (states : States document node source target) :
      (draft.aliases.declare source ⟨target, node⟩).aliases.get? uri = some declared ↔
        Entry.Declares document uri ⟨node, true⟩ declared ∨
          (∀ other, ¬ Entry.Declares document uri ⟨node, true⟩ other) ∧
            draft.aliases.aliases.get? uri = some declared := by
    by_cases same : uri = source
    · subst same
      have held : (draft.aliases.declare uri ⟨target, node⟩).aliases.get? uri =
          some ⟨target, node⟩ := OrderedMap.get?_update_same _ _ _
      rw [held]
      constructor
      · intro equal
        cases equal
        exact .inl ⟨rfl, states, rfl⟩
      · rintro (⟨_, otherStates, place⟩ | ⟨silent, _⟩)
        · rcases declared with ⟨otherTarget, otherNode⟩
          cases place
          rw [(states.unique otherStates).2]
        · exact absurd ⟨rfl, states, rfl⟩ (silent ⟨target, node⟩)
    · have kept : (draft.aliases.declare source ⟨target, node⟩).aliases.get? uri =
          draft.aliases.aliases.get? uri := OrderedMap.get?_update_other _ same _
      have silent : ∀ other, ¬ Entry.Declares document uri ⟨node, true⟩ other :=
        fun other declares => same (declares.states.unique states).1
      simp [kept, silent]
  cases registers with
  | refused silent _ =>
      have undeclared : ∀ other, ¬ Entry.Declares document uri ⟨node, false⟩ other :=
        fun other declares => silent _ _ declares.states
      simp [undeclared, Draft.report]
  | declared states _ => exact taken states
  | redeclared states _ _ _ _ => exact taken states

/-! ## Two maps -/

/-- Where aliases lead and which nodes declare them, each in a map of its own. -/
structure SplitTable where
  targets : OrderedMap String String := .empty
  declaredBy : OrderedMap String NodeId := .empty

def SplitTable.declare (split : SplitTable) (uri : String) (declared : Alias) :
    SplitTable where
  targets := split.targets.insert uri declared.target
  declaredBy := split.declaredBy.insert uri declared.declaredBy

structure SplitTable.Shows (split : SplitTable) (table : AliasTable) : Prop where
  targets : ∀ uri, split.targets.get? uri = table.get? uri
  declaredBy : ∀ uri,
    split.declaredBy.get? uri = (table.aliases.get? uri).map Alias.declaredBy

theorem SplitTable.Shows.declare {split : SplitTable} {table : AliasTable}
    (shows : split.Shows table) (uri : String) (declared : Alias) :
    (split.declare uri declared).Shows (table.declare uri declared) := by
  constructor
  · intro other
    by_cases same : other = uri
    · simp [same, SplitTable.declare, OrderedMap.insert]
    · rw [AliasTable.get?_declare_other _ same, ← shows.targets]
      exact OrderedMap.get?_update_other _ same _
  · intro other
    by_cases same : other = uri
    · simp [same, SplitTable.declare, AliasTable.declare, OrderedMap.insert]
    · have kept := shows.declaredBy other
      simp only [SplitTable.declare, AliasTable.declare, OrderedMap.insert]
      rwa [OrderedMap.get?_update_other _ same, OrderedMap.get?_update_other _ same]

/-- The two maps after some calls, of which the accepted ones declare what their nodes
state. -/
inductive SplitTable.After (document : Document) : List Entry → SplitTable → Prop
  | start : After document [] {}
  | refused {entries : List Entry} {split : SplitTable} {node : NodeId}
      (before : After document entries split) :
      After document (entries ++ [⟨node, false⟩]) split
  | declared {entries : List Entry} {split : SplitTable} {node : NodeId}
      {source target : String} (before : After document entries split)
      (states : States document node source target) :
      After document (entries ++ [⟨node, true⟩]) (split.declare source ⟨target, node⟩)

/-! ## All calls -/

structure Registry (document : Document) (entries : List Entry) (table : AliasTable) :
    Prop where
  declared : ∀ uri declared, table.aliases.get? uri = some declared ↔
    LastTold (Entry.Declares document uri) entries declared
  aliased : ∀ uri target, table.get? uri = some target ↔
    ∃ node, LastTold (Entry.Declares document uri) entries ⟨target, node⟩
  unaliased : ∀ uri, table.get? uri = none ↔
    ∀ entry ∈ entries, ∀ declared, ¬ entry.Declares document uri declared
  substantial : table.Substantial
  apart : ∃ split, SplitTable.After document entries split ∧ split.Shows table

variable {entries : List Entry} {table : AliasTable}

theorem Registry.of_declared
    (declared : ∀ uri declared, table.aliases.get? uri = some declared ↔
      LastTold (Entry.Declares document uri) entries declared)
    (apart : ∃ split, SplitTable.After document entries split ∧ split.Shows table) :
    Registry document entries table := by
  have aliased (uri target : String) : table.get? uri = some target ↔
      ∃ node, LastTold (Entry.Declares document uri) entries ⟨target, node⟩ := by
    simp only [← declared]
    constructor
    · intro present
      rcases Option.map_eq_some_iff.mp present with ⟨⟨_, node⟩, held, rfl⟩
      exact ⟨node, held⟩
    · rintro ⟨node, held⟩
      exact Option.map_eq_some_iff.mpr ⟨_, held, rfl⟩
  refine ⟨declared, aliased, ?unaliased, ?substantial, apart⟩
  case unaliased =>
    intro uri
    have last := (@exists_lastTold_iff _ _ (Entry.Declares document uri) entries).not
    simp only [← declared] at last
    simpa [AliasTable.get?, Option.eq_none_iff_forall_not_mem] using last
  case substantial =>
    intro uri target present
    rcases (aliased uri target).mp present with ⟨node, _, entry, _, _, declares, _⟩
    rcases declares.states with ⟨_, _, _, _, source, target⟩
    exact ⟨source.nonempty, target.nonempty⟩

theorem registry_empty : Registry document [] .empty := by
  apply Registry.of_declared
  · intro uri declared
    simp [AliasTable.empty, LastTold]
  · exact ⟨{}, .start, fun _ => rfl, fun _ => rfl⟩

theorem Registry.next (registry : Registry document entries draft.aliases)
    (registers : Registers document draft node accepted after) :
    Registry document (entries ++ [⟨node, accepted⟩]) after.aliases := by
  apply Registry.of_declared
  · intro uri declared
    rw [lastTold_append_singleton_iff, registers.get?_aliases, registry.declared]
  · rcases registry.apart with ⟨split, before, shows⟩
    cases registers with
    | refused _ _ => exact ⟨split, .refused before, shows⟩
    | declared states _ => exact ⟨_, .declared before states, shows.declare _ _⟩
    | redeclared states _ _ _ _ => exact ⟨_, .declared before states, shows.declare _ _⟩

variable {nodes : List NodeId} {start reached : Draft}

theorem registry_of_registerEach (empty : start.aliases = .empty)
    (called : start.registerEach document nodes = .ok (entries, reached)) :
    entries.map Entry.node = nodes ∧ Registry document entries reached.aliases := by
  -- The last call is the one that changes the table of all before it.
  induction nodes using List.reverseRecOn generalizing entries reached with
  | nil =>
      cases called
      rw [empty]
      exact ⟨rfl, registry_empty⟩
  | append_singleton nodes node induction =>
      rw [Draft.registerEach, List.foldlM_append] at called
      rcases Reading.bind_eq_ok_iff.mp called with ⟨⟨before, draft⟩, calledBefore, called⟩
      rcases Reading.bind_eq_ok_iff.mp called with ⟨made, called, same⟩
      cases same
      rcases Reading.bind_eq_ok_iff.mp called with ⟨⟨accepted, after⟩, called, same⟩
      cases same
      rcases induction calledBefore with ⟨nodesBefore, registry⟩
      constructor
      · simp [nodesBefore]
      · exact registry.next (registers_of_registerAlias called)

theorem Registry.within (registry : Registry document entries table)
    (inside : ∀ node ∈ entries.map Entry.node, node < document.size) :
    table.Within document.size := by
  intro uri declared held
  rcases (registry.declared uri declared).mp held with
    ⟨before, entry, after, same, declares, _⟩
  rw [declares.place]
  apply inside
  exact List.mem_map_of_mem (same ▸ List.mem_append_right before List.mem_cons_self)

theorem faultsOnly_registerEach {kind : Fault → Prop} (reachable : document.Reachable)
    (known : document.AllKnown) (empty : start.aliases = .empty)
    (inside : ∀ node ∈ nodes, node < document.size)
    (searchable : ∀ node ∈ nodes, document.Searchable kind node) :
    (start.registerEach document nodes).FaultsOnly kind := by
  induction nodes using List.reverseRecOn with
  | nil => exact .ok _
  | append_singleton nodes node induction =>
      rw [Draft.registerEach, List.foldlM_append]
      apply Reading.FaultsOnly.bind
      · apply induction
        · exact fun node member => inside node (List.mem_append_left _ member)
        · exact fun node member => searchable node (List.mem_append_left _ member)
      · rintro ⟨entries, draft⟩ called
        rcases registry_of_registerEach empty called with ⟨rfl, registry⟩
        have within := registry.within fun node member =>
          inside node (List.mem_append_left _ member)
        have registrable : Registrable document node :=
          ⟨reachable, known, inside node (by simp)⟩
        have registering :=
          within.faultsOnly_register registrable (searchable node (by simp))
        have calling : (draft.registerAlias document node).FaultsOnly kind :=
          registering.bind fun _ _ => .ok _
        have recording : (registerNext document (entries, draft) node).FaultsOnly kind :=
          calling.bind fun _ _ => .ok _
        exact recording.bind fun _ _ => .ok _

/-- Registering the aliases at nodes of one document, from no aliases on, has an answer
where the ways up from these nodes end. Then the table holds for each namespace what the
last accepted call declared for it, and nothing else, and never anything about the empty
URI. Any further call is either refused with one error and leaves the table, or it is
accepted, with one remark where it replaces something else and with none where it does
not. -/
theorem registry_registerEach (reachable : document.Reachable) (known : document.AllKnown)
    (empty : start.aliases = .empty) (inside : ∀ node ∈ nodes, node < document.size) :
    (start.registerEach document nodes).Harmless ∧
      ((∀ node ∈ nodes, ∃ way, document.Way node way) →
        ∃ made, start.registerEach document nodes = .ok made) ∧
      ∀ entries reached, start.registerEach document nodes = .ok (entries, reached) →
        entries.map Entry.node = nodes ∧ Registry document entries reached.aliases ∧
          ∀ node accepted after,
            reached.registerAlias document node = .ok (accepted, after) →
            Registers document reached node accepted after := by
  refine ⟨?harmless, ?answers, ?registry⟩
  case harmless =>
    exact faultsOnly_registerEach reachable known empty inside fun node member =>
      Document.searchable_of_inside (inside node member)
  case answers =>
    intro ways
    apply Reading.FaultsOnly.exists_answer
    refine faultsOnly_registerEach reachable known empty inside fun node member => ?_
    rcases ways node member with ⟨_, way⟩
    exact way.searchable reachable.linked (inside node member)
  case registry =>
    intro entries reached called
    rcases registry_of_registerEach empty called with ⟨same, registry⟩
    exact ⟨same, registry, fun _ _ _ => registers_of_registerAlias⟩

def twoNamesForOne : List Operation :=
  [.appendElement 0 "stylesheet", .declare 1 none "urn:a", .declare 1 (some "a") "urn:a",
    .declare 1 (some "b") "urn:b",
    .appendElement 1 "namespace-alias", .setAttribute 2 "stylesheet-prefix" none "a",
    .setAttribute 2 "result-prefix" none "b",
    .appendElement 1 "namespace-alias",
    .setAttribute 3 "stylesheet-prefix" none "#default",
    .setAttribute 3 "result-prefix" none "a",
    .appendElement 1 "namespace-alias", .setAttribute 4 "stylesheet-prefix" none "a"]

theorem registry_registerEach_twoNamesForOne :
    ∃ document reached, Document.after twoNamesForOne = some document ∧
      ({} : Draft).registerEach document [2, 3, 4] =
        .ok ([⟨2, true⟩, ⟨3, true⟩, ⟨4, false⟩], reached) ∧
      reached.aliases.get? "urn:a" = some "urn:a" ∧
      reached.aliases.Substantial ∧
      LastTold (Entry.Declares document "urn:a") [⟨2, true⟩, ⟨3, true⟩, ⟨4, false⟩]
        ⟨"urn:a", 3⟩ ∧
      ∃ after, Registers document reached 2 true after := by
  have made : ∃ document, Document.after twoNamesForOne = some document ∧
      document.AllKnown ∧
      (∀ node ∈ [2, 3, 4], node < document.size) ∧ document.Acyclic ∧
      (fun made : List Entry × Draft =>
          (made.1, made.2.aliases.aliases.get? "urn:a")) <$>
        ({} : Draft).registerEach document [2, 3, 4] =
        .ok ([⟨2, true⟩, ⟨3, true⟩, ⟨4, false⟩], some ⟨"urn:a", 3⟩) ∧
      Prod.fst <$> (do
        let made ← ({} : Draft).registerEach document [2, 3, 4]
        made.2.registerAlias document 2) = .ok true :=
    ⟨_, rfl, by decide, by decide,
      Document.acyclic_of_climb (by decide), by decide +kernel,
      by decide +kernel⟩
  rcases made with ⟨document, made, known, inside, acyclic, shown, next⟩
  have reachable := Document.reachable_of_after made
  rcases @registry_registerEach document [2, 3, 4] {} reachable known rfl inside with
    ⟨_, answers, holds⟩
  rcases answers fun node _ => acyclic node with ⟨⟨entries, reached⟩, called⟩
  rw [called] at shown next
  rcases Prod.mk.inj (Except.ok.inj shown) with ⟨rfl, held⟩
  rcases Reading.map_eq_ok_iff.mp next with ⟨⟨accepted, after⟩, calledNext, rfl⟩
  rcases holds _ reached called with ⟨_, registry, further⟩
  refine ⟨document, reached, made, called, ?_, registry.substantial,
    (registry.declared _ _).mp held, after, further _ _ _ calledNext⟩
  rw [AliasTable.get?, held]
  rfl

end ResultTree.Stylesheet
