import ResultTree.Proofs.Transform.Following
import ResultTree.Proofs.Transform.Uniqueness

namespace ResultTree

/-! The attributes of a copy, one at a time. When it is the turn of an attribute, the copy
is what it would be in the end if the element had only the attributes before it. -/

def Element.before (element : Element) (index : Nat) : Element :=
  { element with attributes := element.attributes.take index }

namespace Document

variable {source : Document} {held : Element}

theorem Known.before (known : source.Known held) (index : Nat) :
    source.Known (held.before index) := by
  intro handle member
  refine known handle ?_
  rcases List.mem_append.mp member with own | ofAttribute
  · exact List.mem_append_left _ own
  · rcases List.mem_filterMap.mp ofAttribute with ⟨attr, attrMember, ns⟩
    exact Element.mem_handles_of_attribute (List.mem_of_mem_take attrMember) ns

theorem Orderly.before (orderly : source.Orderly held) (index : Nat) :
    source.Orderly (held.before index) where
  tidy := orderly.tidy
  known := fun attr member => orderly.known attr (List.mem_of_mem_take member)
  different := orderly.different.sublist (List.take_sublist _ _)

end Document

def Named.putAll (attributes : List Named) : List Named :=
  attributes.foldl (fun present added => Named.put added present) []

namespace AliasTable

open Document

variable {table : AliasTable} {source : Document} {site : Site} {held : Element}
  {attributes : List Attribute} {written last : Written}

/-- The attributes that are put on a copy, each named as things stand at its turn. -/
theorem Writes.turns (writes : table.Writes source site attributes written last) :
    ∃ named : List Named, named.length = attributes.length ∧
      last.attributes =
        named.foldl (fun present added => Named.put added present) written.attributes ∧
      ∀ index (attr : Attribute), attributes[index]? = some attr →
        ∃ mid ns declarations,
          table.Writes source site (attributes.take index) written mid ∧
          source.StandsIn (table.ResolvesAttribute site mid.declarations mid.own)
            mid.declarations attr.ns ns declarations ∧
          named[index]? = some ⟨attr.name, ns, attr.value⟩ := by
  induction writes with
  | done written => exact ⟨[], rfl, rfl, by simp⟩
  | @next attr rest written last ns declarations standsIn _ induction =>
      rcases induction with ⟨named, length, put, turns⟩
      refine ⟨⟨attr.name, ns, attr.value⟩ :: named, by simp [length], put, ?_⟩
      intro index other listed
      cases index with
      | zero =>
          cases listed
          exact ⟨written, ns, declarations, .done written, standsIn, rfl⟩
      | succ index =>
          rcases turns index other listed with
            ⟨mid, otherNs, left, writes, otherNamed, same⟩
          exact ⟨mid, otherNs, left, .next standsIn writes, otherNamed, same⟩

theorem Copies.turns (copies : table.Copies source site held written) :
    ∃ named : List Named, named.length = held.attributes.length ∧
      written.attributes = Named.putAll named ∧
      ∀ index (attr : Attribute), held.attributes[index]? = some attr →
        ∃ mid ns declarations, table.Copies source site (held.before index) mid ∧
          mid.own = written.own ∧
          source.StandsIn (table.ResolvesAttribute site mid.declarations mid.own)
            mid.declarations attr.ns ns declarations ∧
          named[index]? = some ⟨attr.name, ns, attr.value⟩ := by
  cases copies with
  | copy ownNamed writes =>
      rcases writes.turns with ⟨named, length, put, turns⟩
      refine ⟨named, length, put, fun index attr listed => ?_⟩
      rcases turns index attr listed with ⟨mid, ns, declarations, before, standsIn, same⟩
      exact ⟨mid, ns, declarations,
        @Copies.copy table source site (held.before index) _ _ _ ownNamed before,
        before.own_eq.trans writes.own_eq.symm, standsIn, same⟩

/-! ## The same in a document -/

/-- There is no namespace for an attribute at its turn. The copy with the attributes
before it is not in the namespace itself, it has nothing in scope for what the aliases
make of the URI, and it cannot declare the prefix. -/
def CrowdsOut (table : AliasTable) (source after : Document) (held : Element)
    (copy : NodeId) (index : Nat) (wanted : Binding) : Prop :=
  ∃ begun bindings,
    (table.writeElement source (held.before index) copy).on
        (after.putElement copy { name := held.name }) = .ok (.ok (), begun) ∧
      begun.namespaceUri? copy ≠ .ok (some wanted.uri) ∧
      begun.findUri copy (table.target wanted.uri) = .ok none ∧
      begun.declarations copy = .ok bindings ∧
      ¬ Declarable bindings (table.restate wanted)

variable {after : Document} {index : Nat} {wanted : Binding}

theorem crowdsOut_iff
    (ready : site.Ready (after.putElement site.id { name := held.name }) held.name)
    (tidy : Tidy held.declarations) (known : source.Known held)
    (copies : table.Copies source site (held.before index) written) :
    table.CrowdsOut source after held site.id index wanted ↔
      table.CrowdedOut site written.own written.declarations wanted := by
  rcases @Site.Ready.writeElement _ _ _ _ (held.before index) ready table tidy
    (known.before index) with ⟨_, admits, copiesAgain, result⟩
  cases copies.unique copiesAgain
  have carried := Edit.on_of result
  have pageHeld := ready.page_held written
  have own : (site.page (after.putElement site.id { name := held.name }) held.name
      written).namespaceUri? site.id = .ok (written.own.map (·.binding.uri)) :=
    (namespaceUri?_of_element pageHeld).trans
      (ready.page_uri? written fun _ => admits.own)
  have found := ready.page_findUri written (table.target wanted.uri)
  have declared := declarations_of_element pageHeld
  constructor
  · rintro ⟨begun, bindings, begunCarried, other, missing, begunDeclared, undeclarable⟩
    cases carried.symm.trans begunCarried
    cases declared.symm.trans begunDeclared
    rw [own] at other
    rw [found] at missing
    exact ⟨fun same => other (congrArg Except.ok same),
      Option.map_eq_none_iff.mp (Except.ok.inj missing), undeclarable⟩
  · rintro ⟨other, missing, undeclarable⟩
    refine ⟨_, _, carried, ?_, ?_, declared, undeclarable⟩
    · rw [own]
      exact fun same => other (Except.ok.inj same)
    · rw [found, missing]
      rfl

end AliasTable

end ResultTree
