import ResultTree.Proofs.Transform.Environment

namespace ResultTree

/-! Elements in no namespace stay in none. The default namespace at a copy is settled
before its attributes are written: what the copy declares of its original is empty,
because the original is in no namespace, and what comes from above is undeclared. The
declarations that attributes add all have prefixes, so they do not bring a default
namespace back. -/

namespace Document

def Defaulted (document : Document) (id : NodeId) : Prop :=
  ∃ handle binding, document.findPrefix id none = .ok (some handle) ∧
    document.binding handle = .ok binding ∧ binding.uri ≠ ""

def MorePrefixed (present changed : List Binding) : Prop :=
  ∃ added, changed = present ++ added ∧ ∀ binding ∈ added, binding.nsPrefix ≠ none

namespace MorePrefixed

variable {present changed left : List Binding} {binding : Binding}

theorem refl (present : List Binding) : MorePrefixed present present :=
  ⟨[], (List.append_nil _).symm, by simp⟩

theorem trans (first : MorePrefixed present changed)
    (second : MorePrefixed changed left) :
    MorePrefixed present left := by
  rcases first with ⟨added, rfl, prefixed⟩
  rcases second with ⟨others, rfl, othersPrefixed⟩
  exact ⟨added ++ others, List.append_assoc _ _ _,
    List.forall_mem_append.mpr ⟨prefixed, othersPrefixed⟩⟩

theorem mem (more : MorePrefixed present changed) (member : binding ∈ changed)
    (unprefixed : binding.nsPrefix = none) : binding ∈ present := by
  rcases more with ⟨added, rfl, prefixed⟩
  exact (List.mem_append.mp member).resolve_right fun later =>
    prefixed binding later unprefixed

theorem subset (more : MorePrefixed present changed) : present ⊆ changed := by
  rcases more with ⟨added, rfl, _⟩
  exact List.subset_append_left _ _

end MorePrefixed

variable {document : Document} {id : NodeId} {nodes : List NodeId}

theorem Way.defaulted_iff (way : document.Way id nodes) (linked : document.Linked)
    (inside : id < document.size) :
    document.Defaulted id ↔
      ∃ found, (document.scopeAlong nodes).denoted? none = some found ∧
        found.binding.uri ≠ "" := by
  rw [Defaulted, way.findPrefix linked inside]
  constructor
  · rintro ⟨handle, binding, answered, known, something⟩
    rcases Option.map_eq_some_iff.mp (Except.ok.inj answered) with ⟨found, denoted, rfl⟩
    cases known.symm.trans (linked.binding_of_denoted denoted)
    exact ⟨found, denoted, something⟩
  · rintro ⟨found, denoted, something⟩
    exact ⟨found.handle, found.binding, by rw [denoted]; rfl,
      linked.binding_of_denoted denoted, something⟩

theorem Way.parent_defaulted_iff (way : document.Way id (id :: nodes))
    (linked : document.Linked) (inside : id < document.size) :
    (∃ above, document.parent id = .ok (some above) ∧ document.Defaulted above) ↔
      ∃ found, (document.scopeAlong nodes).denoted? none = some found ∧
        found.binding.uri ≠ "" := by
  rw [parent_eq_parentLink inside]
  cases way with
  | top loose =>
      constructor
      · rintro ⟨above, link, _⟩
        rw [loose] at link
        cases link
      · rintro ⟨found, denoted, _⟩
        cases denoted
  | @up _ above _ link upper =>
      rw [link, ← upper.defaulted_iff linked (linked.parentInside link)]
      constructor
      · rintro ⟨other, same, defaulted⟩
        cases same
        exact defaulted
      · exact fun defaulted => ⟨above, rfl, defaulted⟩

theorem Way.bare (way : document.Way id nodes) (linked : document.Linked)
    (inside : id < document.size)
    (empty : ∀ found, (document.scopeAlong nodes).denoted? none = some found →
      found.binding.uri = "") : document.Bare id := by
  rw [Bare, way.findPrefix linked inside]
  cases denoted : (document.scopeAlong nodes).denoted? none with
  | none => exact .inl rfl
  | some found =>
      exact .inr ⟨_, _, rfl, linked.binding_of_denoted denoted, empty found denoted⟩

end Document

open Document

/-! ## The default namespace at a site -/

namespace Site

variable {site : Site} {present changed : List Binding} {binding : Binding}
  {answer : Option Declaration}

/-- An element with these declarations would fall into a default namespace from
above. -/
def Inherits (site : Site) (present : List Binding) : Prop :=
  (∀ binding ∈ present, binding.nsPrefix ≠ none) ∧
    ∃ found, site.outer.denoted? none = some found ∧ found.binding.uri ≠ ""

theorem inherits_cases (sound : site.Sound) (tidy : Tidy present) :
    (site.Inherits present ∧ site.undeclareDefault present = present ++ [⟨none, ""⟩]) ∨
      (¬ site.Inherits present ∧ site.undeclareDefault present = present) := by
  unfold Site.undeclareDefault
  cases denoted : (site.scope present).denoted? none with
  | none =>
      refine .inr ⟨?_, rfl⟩
      rintro ⟨undeclared, found, outer, _⟩
      rw [denoted_scope_of_undeclared undeclared, outer] at denoted
      cases denoted
  | some inherited =>
      rcases (denoted_scope_iff tidy).mp denoted with
        ⟨member, unprefixed⟩ | ⟨outer, undeclared⟩
      · rcases mem_declared_iff.mp member with ⟨owner, held⟩
        refine .inr ⟨?_, if_pos (.inl owner)⟩
        rintro ⟨undeclared, _⟩
        exact undeclared _ (List.mem_of_getElem? held) unprefixed
      · by_cases empty : inherited.binding.uri = ""
        · refine .inr ⟨?_, if_pos (.inr empty)⟩
          rintro ⟨_, found, again, something⟩
          cases outer.symm.trans again
          exact something empty
        · exact .inl ⟨⟨undeclared, inherited, outer, empty⟩,
            if_neg (not_or.mpr ⟨sound.elsewhere_of_denoted outer, empty⟩)⟩

theorem denoted_empty_of_morePrefixed (sound : site.Sound) (tidy : Tidy present)
    (changedTidy : Tidy changed)
    (empties : ∀ binding ∈ present, binding.nsPrefix = none → binding.uri = "")
    (more : MorePrefixed (site.undeclareDefault present) changed) :
    ∀ found, (site.scope changed).denoted? none = some found →
      found.binding.uri = "" := by
  intro found denoted
  rcases (denoted_scope_iff changedTidy).mp denoted with
    ⟨member, unprefixed⟩ | ⟨outer, undeclared⟩
  · have held := more.mem (List.mem_of_getElem? (mem_declared_iff.mp member).2) unprefixed
    rcases inherits_cases sound tidy with ⟨_, same⟩ | ⟨_, same⟩
    · rw [same] at held
      rcases List.mem_append.mp held with held | held
      · exact empties _ held unprefixed
      · rw [List.mem_singleton.mp held]
    · exact empties _ (same ▸ held) unprefixed
  · rcases inherits_cases sound tidy with ⟨_, same⟩ | ⟨stays, same⟩
    · exact absurd rfl (undeclared ⟨none, ""⟩ (more.subset (by simp [same])))
    · by_contra something
      refine stays ⟨fun binding member => ?_, found, outer, something⟩
      exact undeclared binding (more.subset (same.symm ▸ member))

theorem Declares.morePrefixed (declares : site.Declares present binding answer changed)
    (prefixed : binding.nsPrefix ≠ none) : MorePrefixed present changed := by
  cases declares with
  | declared _ => exact ⟨[binding], rfl, by simpa using prefixed⟩
  | refused _ => exact .refl _

end Site

/-! ## What copying declares -/

namespace AliasTable

variable {table : AliasTable} {source after : Document} {site outside : Site}
  {present changed : List Binding} {own answer : Option Declaration} {wanted : Binding}
  {held : Element} {written last : Written} {original copy : NodeId}

theorem Resolves.morePrefixed
    (resolved : table.Resolves site present own wanted answer changed)
    (prefixed : wanted.nsPrefix ≠ none) : MorePrefixed present changed := by
  cases resolved with
  | missing _ _ declares => exact declares.morePrefixed prefixed
  | _ => exact .refl _

theorem ResolvesAttribute.morePrefixed
    (resolved : table.ResolvesAttribute site present own wanted answer changed)
    (prefixed : wanted.nsPrefix ≠ none) : MorePrefixed present changed := by
  cases resolved with
  | nothing resolved => exact resolved.morePrefixed prefixed
  | named resolved _ => exact resolved.morePrefixed prefixed
  | replaced resolved _ _ => exact resolved.morePrefixed prefixed
  | @invented _ _ _ nsPrefix _ resolved _ _ _ declares =>
      exact (resolved.morePrefixed prefixed).trans
        (declares.morePrefixed (Option.some_ne_none nsPrefix))

theorem Writes.morePrefixed {attributes : List Attribute}
    (writes : table.Writes source site attributes written last)
    (prefixed : ∀ named ∈ attributes, ∀ handle, named.ns = some handle → ∀ wanted,
      source.binding handle = .ok wanted → wanted.nsPrefix ≠ none) :
    MorePrefixed written.declarations last.declarations := by
  induction writes with
  | done _ => exact .refl _
  | @next named rest written _ ns declarations standsIn _ induction =>
      have here : MorePrefixed written.declarations declarations := by
        have own := prefixed named (by simp)
        generalize named.ns = wantedNs at standsIn own
        cases standsIn with
        | absent => exact .refl _
        | found known resolved => exact resolved.morePrefixed (own _ rfl _ known)
      exact here.trans (induction fun other member =>
        prefixed other (List.mem_cons_of_mem _ member))

/-- The copy of an element in no namespace is in none. It declares what its original does,
then the empty default namespace if it has to, and then prefixes. -/
theorem Copies.morePrefixed (copies : table.Copies source site held written)
    (inScope : source.NamedIn (outside.scope held.declarations) held)
    (unnamed : held.ns = none) :
    written.own = none ∧
      MorePrefixed (site.undeclareDefault (table.cloned held.declarations))
        written.declarations := by
  cases copies with
  | @copy own declarations _ named writes =>
      rw [unnamed] at named
      cases named
      refine ⟨writes.own_eq,
        writes.morePrefixed fun attr member handle ns wanted known => ?_⟩
      rcases inScope.attributes attr member handle ns with ⟨other, tells, prefixed⟩
      cases known.symm.trans tells.known
      exact prefixed

theorem uri_of_mem_cloned (tidy : Tidy held.declarations)
    (consistent : source.ConsistentIn (outside.scope held.declarations) held)
    (unnamed : held.ns = none) (plain : table.target "" = "") :
    ∀ binding ∈ table.cloned held.declarations, binding.nsPrefix = none →
      binding.uri = "" := by
  intro binding member unprefixed
  rcases List.mem_map.mp member with ⟨own, ownMember, rfl⟩
  have declared := (List.mem_filter.mp ownMember).1
  rw [← @Site.map_binding_declared outside held.declarations] at declared
  rcases List.mem_map.mp declared with ⟨declaration, declarationMember, rfl⟩
  have denoted := Site.denoted_scope_of_mem tidy declarationMember
  rw [show declaration.binding.nsPrefix = none from unprefixed] at denoted
  have empty := consistent.bare unnamed declaration denoted
  simp only [restate, empty, plain]

/-- The copy of an element would fall into a default namespace of its parent, with the
declarations of its original alone. -/
def Falls (table : AliasTable) (after : Document) (held : Element) (copy : NodeId) :
    Prop :=
  (∀ binding ∈ table.cloned held.declarations, binding.nsPrefix ≠ none) ∧
    ∃ above, after.parent copy = .ok (some above) ∧ after.Defaulted above

/-- What is said of the copy of an element in no namespace. It declares what its original
does, then the empty default namespace just where it would fall into another one, and then
prefixes. -/
structure StaysBare (table : AliasTable) (after : Document) (held : Element)
    (copy : NodeId) : Prop where
  unnamed : after.ownNamespace? copy = .ok none
  bare : after.Bare copy
  declares : ∃ undeclared added,
    after.declarations copy =
      .ok (table.cloned held.declarations ++ undeclared ++ added) ∧
      (table.Falls after held copy ∧ undeclared = [⟨none, ""⟩] ∨
        ¬ table.Falls after held copy ∧ undeclared = []) ∧
      ∀ binding ∈ added, binding.nsPrefix ≠ none

theorem StandsFor.staysBare (stands : table.StandsFor source after original copy)
    (linked : source.Linked) (orderly : source.AllOrderly)
    (consistent : source.Consistent) (attached : source.Attached original)
    (afterLinked : after.Linked) (afterOrderly : after.AllOrderly)
    (plain : table.target "" = "") (holds : source.content original = .ok (.element held))
    (unnamed : held.ns = none) :
    table.StaysBare after held copy := by
  rcases stands.element holds with ⟨written, copyNodes, way, copyHeld, admits, copies⟩
  rcases attached.exists_way linked with ⟨nodes, sourceWay⟩
  have inScope := consistent.inScope linked attached holds sourceWay
  have sound := way.sound afterLinked afterOrderly copyHeld
  have tidy := (orderly _ _ holds).tidy
  have clonedTidy := tidy.cloned table
  have inside := lt_size_of_content copyHeld
  rcases copies.morePrefixed inScope.named unnamed with ⟨nothing, more⟩
  refine ⟨?_, way.bare afterLinked inside ?_, ?_⟩
  · rw [ownNamespace?, element?, copyHeld]
    simp [Content.element?, Written.element, nothing]
  · rw [scopeAlong_eq_scope copyHeld]
    exact Site.denoted_empty_of_morePrefixed sound clonedTidy admits.tidy
      (uri_of_mem_cloned tidy inScope unnamed plain) more
  · rcases more with ⟨added, declares, prefixed⟩
    have falls : table.Falls after held copy ↔
        Site.Inherits ⟨copy, copyNodes.flatMap after.declared⟩
          (table.cloned held.declarations) :=
      and_congr_right fun _ => way.parent_defaulted_iff afterLinked inside
    rw [declarations_of_element copyHeld,
      show (written.element held.name).declarations = written.declarations from rfl,
      declares, falls]
    rcases Site.inherits_cases sound clonedTidy with ⟨inherits, same⟩ | ⟨stays, same⟩
    · exact ⟨[⟨none, ""⟩], added, by rw [same], .inl ⟨inherits, rfl⟩, prefixed⟩
    · exact ⟨[], added, by rw [same, List.append_nil], .inr ⟨stays, rfl⟩, prefixed⟩

end AliasTable

namespace Run

variable {run : Run} {node parent : NodeId}

/-- Copying a node with all that is below it keeps every element in no namespace that was
in none. -/
theorem staysBare_copyTree (compiled : run.stylesheet.Compiled)
    (sourceReachable : run.source.Reachable) (consistent : run.source.Consistent)
    (attached : run.source.Attached node) (resultReachable : run.result.Reachable)
    (acyclic : run.result.Acyclic) (hosts : run.result.Hosts parent) :
    ∃ answer after, run.copyTree node parent = .ok (.ok answer, after) ∧
      (∀ original, run.source.Passes original node →
        ∃ copy, run.source.IsCopy run.result after.result node answer original copy) ∧
      ∀ original copy held,
        run.source.IsCopy run.result after.result node answer original copy →
        run.source.content original = .ok (.element held) → held.ns = none →
        run.stylesheet.aliases.StaysBare after.result held copy := by
  have linked := sourceReachable.linked
  have orderly := sourceReachable.orderly
  have resultLinked := resultReachable.linked
  rcases acyclic parent with ⟨nodes, way⟩
  rcases AliasTable.grafts_copyTree run.stylesheet.aliases linked orderly consistent
    attached resultLinked hosts way with ⟨result, outcome, graft⟩
  have afterOrderly := graft.changes.holds resultReachable.orderly AllOrderly.kept
  refine ⟨_, _, edit_of outcome,
    fun original passes => graft.exists_isCopy linked attached hosts.inside passes, ?_⟩
  intro original copy held isCopy holds unnamed
  exact (graft.standsFor linked attached hosts.inside isCopy holds).staysBare
    linked orderly consistent (AliasTable.attached_of_isCopy linked attached isCopy)
    (graft.changes.linked resultLinked) afterOrderly
    compiled.substantial.target_empty holds unnamed

/-! An element in no namespace, with an attribute in one, is copied to where the default
namespace is that of the attribute. -/

def plainInner : List Operation :=
  [.appendElement 0 "outer", .declare 1 (some "a") "urn:a", .appendElement 1 "inner",
    .setAttribute 2 "x" (some ⟨1, 0⟩) "1"]

def defaultedHost : List Operation :=
  [.appendElement 0 "host", .declare 1 none "urn:b", .setNamespace 1 (some ⟨1, 0⟩)]

theorem staysBare_copyTree_defaultedHost :
    ∃ document compilation source result,
      Document.after aliasingStylesheet = some document ∧
      Stylesheet.compile document {} = .ok compilation ∧
      Document.after plainInner = some source ∧
      Document.after defaultedHost = some result ∧
      ∃ answer after,
        copyTree { stylesheet := compilation.stylesheet, source, result } 2 1 =
          .ok (.ok answer, after) ∧
        after.result.declarations 2 = .ok [⟨none, ""⟩, ⟨some "a", "urn:b"⟩] ∧
        ∀ original copy held, source.IsCopy result after.result 2 answer original copy →
          source.content original = .ok (.element held) → held.ns = none →
          compilation.stylesheet.aliases.StaysBare after.result held copy := by
  have sheetMade : ∃ document compilation,
      Document.after aliasingStylesheet = some document ∧
      Stylesheet.compile document {} = .ok compilation := ⟨_, _, rfl, rfl⟩
  have sourceMade : ∃ source, Document.after plainInner = some source := ⟨_, rfl⟩
  have resultMade : ∃ result, Document.after defaultedHost = some result := ⟨_, rfl⟩
  rcases sheetMade with ⟨document, compilation, made, compiled⟩
  rcases sourceMade with ⟨source, sourceMade⟩
  rcases resultMade with ⟨result, resultMade⟩
  have ready : source.Consistent ∧ source.Attached 2 ∧ result.Acyclic ∧
      result.Hosts 1 := by
    cases sourceMade
    cases resultMade
    exact ⟨consistent_of_all (by decide), .head (show _ = some 1 from rfl) (.single rfl),
      acyclic_of_climb (by decide), ⟨_, rfl, trivial⟩⟩
  rcases ready with ⟨consistent, attached, acyclic, hosts⟩
  rcases @staysBare_copyTree
    { stylesheet := compilation.stylesheet, source, result } 2 1
    (Stylesheet.compiled_of_compile compiled) (reachable_of_after sourceMade) consistent
    attached (reachable_of_after resultMade) acyclic hosts with
    ⟨answer, after, copied, _, bare⟩
  refine ⟨document, compilation, source, result, made, compiled, sourceMade,
    resultMade, answer, after, copied, ?_, bare⟩
  cases made
  cases compiled
  cases sourceMade
  cases resultMade
  cases copied
  decide

end Run

end ResultTree
