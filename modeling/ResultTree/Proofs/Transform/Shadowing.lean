import ResultTree.Proofs.Transform.Node

namespace ResultTree

/-! Which names of a copy mean what they say. A name that is written refers to what its
prefix denotes at that time. Declarations that are added later can hide this, but only
those of attributes do: one is declared under the prefix that it has in the source, and
nobody asks whether that prefix is in use. -/

def Document.Wants (source : Document) (held : Element) (wanted : Binding) : Prop :=
  ∃ named ∈ held.attributes, ∃ handle, named.ns = some handle ∧
    source.binding handle = .ok wanted

namespace AliasTable

/-- A declaration is made at a site, or denoted around it by a prefix that the site
declares only where one of the bindings `wanted` does. -/
def HiddenOnlyBy (table : AliasTable) (site : Site) (wanted : Binding → Prop)
    (declarations : List Binding) (found : Declaration) : Prop :=
  found ∈ site.declared declarations ∨
    site.outer.denoted? found.binding.nsPrefix = some found ∧
      ∀ binding ∈ declarations, binding.nsPrefix = found.binding.nsPrefix →
        ∃ other, wanted other ∧ binding = table.restate other

variable {table : AliasTable} {source : Document} {site : Site}
  {present changed : List Binding} {own answer : Option Declaration} {wanted : Binding}
  {found : Declaration} {hides : Binding → Prop}

namespace HiddenOnlyBy

theorem of_denoted (tidy : Document.Tidy present)
    (denoted : (site.scope present).denoted? found.binding.nsPrefix = some found) :
    table.HiddenOnlyBy site hides present found := by
  rcases (Site.denoted_scope_iff tidy).mp denoted with ⟨member, _⟩ | ⟨outer, undeclared⟩
  · exact .inl member
  · exact .inr ⟨outer, fun binding member same => absurd same (undeclared binding member)⟩

theorem grow (hidden : table.HiddenOnlyBy site hides present found)
    (longer : present <+: changed) (additions : ∀ binding ∈ changed, binding ∈ present ∨
      (∃ other, hides other ∧ binding = table.restate other) ∨
      site.outer.denoted? binding.nsPrefix = none) :
    table.HiddenOnlyBy site hides changed found := by
  rcases hidden with member | ⟨denoted, bounded⟩
  · rcases longer with ⟨rest, rfl⟩
    rcases Site.mem_declared_iff.mp member with ⟨owner, held⟩
    refine .inl (Site.mem_declared_iff.mpr ⟨owner, ?_⟩)
    rw [List.getElem?_append_left (List.getElem?_eq_some_iff.mp held).1, held]
  · refine .inr ⟨denoted, fun binding member same => ?_⟩
    rcases additions binding member with old | restated | nothing
    · exact bounded binding old same
    · exact restated
    · rw [same, denoted] at nothing
      cases nothing

end HiddenOnlyBy

/-! ## What resolving finds and adds -/

theorem Resolves.mem_or
    (resolved : table.Resolves site present own wanted answer changed) :
    ∀ declared ∈ changed, declared ∈ present ∨ declared = table.restate wanted := by
  intro declared member
  cases resolved with
  | missing _ _ declares => exact declares.mem_or declared member
  | _ => exact .inl member

theorem Resolves.own_or_denoted (sound : site.Sound) (tidy : Document.Tidy present)
    (resolved : table.Resolves site present own wanted (some found) changed) :
    own = some found ∨
      (site.scope changed).denoted? found.binding.nsPrefix = some found := by
  have changedTidy := resolved.tidy tidy
  cases resolved with
  | own _ _ _ => exact .inl rfl
  | taken _ taken => exact .inr ((sound.coherent_scope tidy).denoted_of_taken taken)
  | missing _ _ declares =>
      exact .inr (Site.denoted_scope_of_mem changedTidy declares.mem)

theorem ResolvesAttribute.mem_or
    (resolved : table.ResolvesAttribute site present own wanted answer changed) :
    ∀ declared ∈ changed, declared ∈ present ∨ declared = table.restate wanted ∨
      site.outer.denoted? declared.nsPrefix = none := by
  intro declared member
  have early {earlier : List Binding} {found : Option Declaration}
      (resolved : table.Resolves site present own wanted found earlier)
      (member : declared ∈ earlier) : declared ∈ present ∨
      declared = table.restate wanted ∨
        site.outer.denoted? declared.nsPrefix = none :=
    (resolved.mem_or declared member).imp_right .inl
  cases resolved with
  | nothing resolved => exact early resolved member
  | named resolved _ => exact early resolved member
  | replaced resolved _ _ => exact early resolved member
  | invented resolved _ _ free declares =>
      rcases declares.mem_or declared member with member | same
      · exact early resolved member
      · exact .inr (.inr (same ▸ Site.outer_denoted_eq_none_of_free free))

theorem ResolvesAttribute.own_or_denoted (sound : site.Sound)
    (tidy : Document.Tidy present)
    (resolved : table.ResolvesAttribute site present own wanted (some found) changed) :
    own = some found ∨
      (site.scope changed).denoted? found.binding.nsPrefix = some found := by
  have changedTidy := resolved.tidy tidy
  cases resolved with
  | named resolved _ => exact resolved.own_or_denoted sound tidy
  | replaced _ _ visible =>
      have coherent := sound.coherent_scope changedTidy
      exact .inr (coherent.denoted_of_mem_visible (prefixed?_spec visible).1)
  | invented _ _ _ _ declares =>
      exact .inr (Site.denoted_scope_of_mem changedTidy declares.mem)

/-! ## Writing -/

/-- Every name that is written is denoted by its prefix or hidden by attributes only. -/
theorem Writes.hiddenOnlyBy (sound : site.Sound) {attributes : List Attribute}
    {written last : Written} (writes : table.Writes source site attributes written last)
    (admits : site.Admits written)
    (wants : ∀ held ∈ attributes, ∀ handle, held.ns = some handle → ∀ wanted,
      source.binding handle = .ok wanted → hides wanted)
    (hidden : ∀ found ∈ written.names,
      table.HiddenOnlyBy site hides written.declarations found) :
    ∀ found ∈ last.names, table.HiddenOnlyBy site hides last.declarations found := by
  induction writes with
  | done written => exact hidden
  | @next held rest written last ns declarations named writes induction =>
      refine induction (admits.put named).2
        (fun other member => wants other (List.mem_cons_of_mem _ member)) ?_
      have longer := named.longer fun resolved => resolved.longer
      -- Only the binding of this attribute, or a prefix that nobody uses, is declared.
      have additions : ∀ binding ∈ declarations, binding ∈ written.declarations ∨
          (∃ other, hides other ∧ binding = table.restate other) ∨
          site.outer.denoted? binding.nsPrefix = none := by
        intro binding member
        have wanting := wants held (by simp)
        generalize held.ns = wantedNs at named wanting
        cases named with
        | absent => exact .inl member
        | found known resolved =>
            refine (resolved.mem_or binding member).imp_right (Or.imp_left fun same => ?_)
            exact ⟨_, wanting _ rfl _ known, same⟩
      have earlier : ∀ found ∈ written.names,
          table.HiddenOnlyBy site hides declarations found :=
        fun found member => (hidden found member).grow longer additions
      intro found member
      rcases List.mem_append.mp member with own | ofAttribute
      · exact earlier found (List.mem_append_left _ own)
      · rcases List.mem_filterMap.mp ofAttribute with ⟨other, otherMember, same⟩
        rcases Named.mem_put otherMember with rfl | otherMember
        · have added : ns = some found := same
          subst added
          generalize held.ns = wantedNs at named
          cases named with
          | found _ resolved =>
              rcases resolved.own_or_denoted sound admits.tidy with own | denoted
              · exact earlier found (by simp [Written.names, own])
              · exact .of_denoted (resolved.tidy admits.tidy) denoted
        · exact earlier found
            (List.mem_append_right _ (List.mem_filterMap.mpr ⟨other, otherMember, same⟩))

theorem Copies.hiddenOnlyBy (sound : site.Sound) {held : Element} {written : Written}
    (tidy : Document.Tidy held.declarations)
    (copies : table.Copies source site held written) :
    ∀ found ∈ written.names,
      table.HiddenOnlyBy site (source.Wants held) written.declarations found := by
  have clonedTidy := tidy.cloned table
  cases copies with
  | @copy own declarations _ named writes =>
      have grown := named.tidy clonedTidy fun resolved => resolved.tidy clonedTidy
      refine writes.hiddenOnlyBy sound ?_
        (fun other member handle ns wanted known => ⟨other, member, handle, ns, known⟩) ?_
      · cases own with
        | none => exact admits_undeclareDefault grown
        | some declaration => exact admits_named clonedTidy named
      · intro found member
        have same : own = some found := by simpa [Written.names] using member
        subst same
        generalize held.ns = wantedNs at named
        cases named with
        | found _ resolved =>
            rcases resolved.own_or_denoted sound clonedTidy with absurdity | denoted
            · cases absurdity
            · exact .of_denoted grown denoted

/-- A name of a copy is denoted by its prefix, unless it refers to a declaration elsewhere
and the copy declares that prefix for one of its attributes. -/
theorem Copies.denoted_iff (sound : site.Sound) {held : Element} {written : Written}
    (tidy : Document.Tidy held.declarations) (admits : site.Admits written)
    (copies : table.Copies source site held written) (member : found ∈ written.names) :
    (site.scope written.declarations).denoted? found.binding.nsPrefix = some found ↔
      ¬ (found.handle.owner ≠ site.id ∧ ∃ wanted, source.Wants held wanted ∧
        wanted.nsPrefix = found.binding.nsPrefix ∧
        table.restate wanted ∈ written.declarations) := by
  constructor
  · rintro denoted ⟨elsewhere, wanted, _, samePrefix, declared⟩
    rcases (Site.denoted_scope_iff admits.tidy).mp denoted with
      ⟨here, _⟩ | ⟨_, undeclared⟩
    · exact elsewhere (Site.mem_declared_iff.mp here).1
    · exact undeclared _ declared samePrefix
  · intro unhidden
    rcases copies.hiddenOnlyBy sound tidy found member with here | ⟨outer, bounded⟩
    · exact Site.denoted_scope_of_mem admits.tidy here
    · apply (Site.denoted_scope_iff admits.tidy).mpr
      refine .inr ⟨outer, fun binding declared same => ?_⟩
      rcases bounded binding declared same with ⟨wanted, wants, rfl⟩
      exact unhidden ⟨sound.elsewhere_of_denoted outer, wanted, wants, same, declared⟩

end AliasTable

end ResultTree
