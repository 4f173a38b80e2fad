import ResultTree.Proofs.Transform.Turns

namespace ResultTree

/-! The attributes that a copy shows. Every attribute of the original is put on the copy,
under the URI that it gets at its turn and in place of an earlier one with the same name
and URI. -/

namespace Named

def picture (named : Named) : String × Option String × String :=
  (named.name, named.uri, named.value)

def Different (attributes : List Named) : Prop :=
  attributes.Pairwise fun left right => ¬ (left.name = right.name ∧ left.uri = right.uri)

variable {written attributes : List Named} {named : Named}

theorem mem_of_mem_foldl_put
    (member : named ∈ attributes.foldl (fun present added => put added present) written) :
    named ∈ written ∨ named ∈ attributes := by
  induction attributes generalizing written with
  | nil => exact .inl member
  | cons added rest induction =>
      rcases induction member with member | member
      · rcases mem_put member with rfl | member
        · exact .inr List.mem_cons_self
        · exact .inl member
      · exact .inr (List.mem_cons_of_mem _ member)

theorem mem_of_mem_putAll (member : named ∈ putAll attributes) : named ∈ attributes :=
  (mem_of_mem_foldl_put member).resolve_left List.not_mem_nil

theorem foldl_put_eq_append (different : Different (written ++ attributes)) :
    attributes.foldl (fun present added => put added present) written =
      written ++ attributes := by
  induction attributes generalizing written with
  | nil => rw [List.append_nil, List.foldl_nil]
  | cons added rest induction =>
      have unlike : ∀ present ∈ written,
          ¬ (present.name = added.name ∧ present.uri = added.uri) := fun present member =>
        (List.pairwise_append.mp different).2.2 present member added List.mem_cons_self
      rw [List.append_cons] at different ⊢
      rw [List.foldl_cons, put_eq_append unlike, induction different]

theorem putAll_eq_self (different : Different attributes) :
    putAll attributes = attributes :=
  foldl_put_eq_append different

end Named

/-! ## Why an attribute may be without a namespace -/

/-- The prefix of a binding is that of another one, followed by a number. -/
def Binding.Numbers (binding other : Binding) : Prop :=
  ∃ base number, other.nsPrefix = some base ∧
    binding.nsPrefix = some (base ++ toString (number + 1))

/-- The reasons for an attribute to be without a namespace. It is named with `xml`,
which is aliased, or its prefix was invented for an earlier attribute. The latter cannot
be seen in the source if the prefix is kept, but for the URI of transformations. -/
def AliasTable.Cause (table : AliasTable) (kept : Option String → Prop)
    (earlier : Binding → Prop) (wanted : Binding) : Prop :=
  (wanted = Binding.xml ∧ table.target xmlUri ≠ xmlUri) ∨
    ∃ other, earlier other ∧ wanted.Numbers other ∧
      (kept wanted.nsPrefix → wanted.uri = transformUri ∧
        (kept other.nsPrefix → table.target other.uri ≠ other.uri))

theorem AliasTable.CrowdedOut.cause {table : AliasTable} {kept : Option String → Prop}
    {source : Document} {site : Site} {origin : Scope} {own : Option Declaration}
    {earlier : Binding → Prop} {present : List Binding} {wanted : Binding}
    {handle : Handle} (crowded : table.CrowdedOut site own present wanted)
    (follows : site.Follows table kept origin own earlier present)
    (coherent : origin.Coherent)
    (told : ∀ other, earlier other → ∃ handle, source.Tells origin handle other)
    (tells : source.Tells origin handle wanted) (prefixed : wanted.nsPrefix ≠ none) :
    table.Cause kept earlier wanted := by
  have absent {declared : Binding} (member : declared ∈ present) :
      declared.uri ≠ table.target wanted.uri :=
    Site.uri_ne_of_missing follows.tidy crowded.missing member
  by_cases isXml : wanted.nsPrefix = some "xml"
  · refine .inl ⟨(tells.eq_xml isXml).2, fun same => ?_⟩
    have missing := crowded.missing
    rw [(tells.eq_xml isXml).2, show Binding.xml.uri = xmlUri from rfl, same] at missing
    cases missing
  · have inUse : ∃ declared ∈ present, declared.nsPrefix = wanted.nsPrefix := by
      by_contra unused
      refine crowded.undeclarable ⟨tells.not_reserved coherent isXml, ?_⟩
      exact fun declared member same => unused ⟨declared, member, same⟩
    rcases inUse with ⟨declared, member, samePrefix⟩
    rcases follows.declared declared member (samePrefix ▸ prefixed) with
      agrees | ⟨other, isEarlier, invented⟩
    · exact absurd (agrees ⟨handle, wanted⟩ (samePrefix ▸ tells.denoted)) (absent member)
    · rcases invented.fromPrefix with ⟨base, number, otherPrefix, ownPrefix⟩
      cases number with
      | zero =>
          -- The prefix of the earlier attribute itself: both have the same namespace.
          rcases told other isEarlier with ⟨otherHandle, otherTells⟩
          have same := otherTells.denoted
          rw [otherPrefix,
            show some base = wanted.nsPrefix from ownPrefix.symm.trans samePrefix,
            tells.denoted] at same
          cases same
          refine absurd ?_ (absent member)
          rw [invented.uri, AliasTable.attributeUri, if_neg crowded.other]
      | succ number =>
          refine .inr ⟨other, isEarlier,
            ⟨base, number, otherPrefix, samePrefix.symm.trans ownPrefix⟩,
            fun isKept => ?_⟩
          have isTransform : wanted.uri = transformUri :=
            invented.free (samePrefix ▸ isKept) ⟨handle, wanted⟩
              (samePrefix ▸ tells.denoted)
          refine ⟨isTransform, fun otherKept unaliased => absent member ?_⟩
          have uri : declared.uri = table.target other.uri := by
            rw [invented.uri, AliasTable.attributeUri, unaliased, ite_self]
          rw [uri, invented.unnamed otherKept uri, isTransform]

/-! ## What a copy shows -/

namespace Document

def attributePictures (document : Document) (id : NodeId) :
    Reading (List (String × Option String × String)) := do
  (← document.attributes id).mapM document.attributePicture

theorem NamedIn.before {source : Document} {origin : Scope} {held : Element}
    (inScope : source.NamedIn origin held) (index : Nat) :
    source.NamedIn origin (held.before index) where
  own := inScope.own
  attributes := fun named member => inScope.attributes named (List.mem_of_mem_take member)

theorem ConsistentIn.before {source : Document} {origin : Scope} {held : Element}
    (consistent : source.ConsistentIn origin held) (index : Nat) :
    source.ConsistentIn origin (held.before index) where
  own := consistent.own
  bare := consistent.bare
  attributes := (consistent.named.before index).attributes

def WantsAt (source : Document) (held : Element) (index : Nat) (wanted : Binding) :
    Prop :=
  ∃ attr handle, held.attributes[index]? = some attr ∧ attr.ns = some handle ∧
    source.binding handle = .ok wanted

theorem NamedIn.exists_tells {source : Document} {origin : Scope} {held : Element}
    (inScope : source.NamedIn origin held) {wanted : Binding}
    (wants : source.Wants held wanted) :
    ∃ handle, source.Tells origin handle wanted ∧ wanted.nsPrefix ≠ none := by
  rcases wants with ⟨attr, member, handle, ns, known⟩
  rcases inScope.attributes attr member handle ns with ⟨_, tells, prefixed⟩
  cases known.symm.trans tells.known
  exact ⟨handle, tells, prefixed⟩

theorem WantsAt.wants {source : Document} {held : Element} {index : Nat}
    {wanted : Binding} (wants : source.WantsAt held index wanted) :
    source.Wants held wanted := by
  rcases wants with ⟨attr, handle, listed, ns, known⟩
  exact ⟨attr, List.mem_of_getElem? listed, handle, ns, known⟩

theorem Wants.of_before {source : Document} {held : Element} {index : Nat}
    {wanted : Binding} (wants : source.Wants (held.before index) wanted) :
    source.Wants held wanted := by
  rcases wants with ⟨attr, member, other⟩
  exact ⟨attr, List.mem_of_mem_take member, other⟩

end Document

namespace AliasTable

open Document

/-- The URI that the namespace of the attribute at a place gets on a copy in the
namespace `own`. -/
inductive Renames (table : AliasTable) (source after : Document) (held : Element)
    (copy : NodeId) (own : Option String) (index : Nat) :
    Option Handle → Option String → Prop
  | bare : Renames table source after held copy own index none none
  | crowded {handle : Handle} {wanted : Binding}
      (known : source.binding handle = .ok wanted)
      (crowds : table.CrowdsOut source after held copy index wanted) :
      Renames table source after held copy own index (some handle) none
  | renamed {handle : Handle} {wanted : Binding}
      (known : source.binding handle = .ok wanted)
      (roomy : ¬ table.CrowdsOut source after held copy index wanted) :
      Renames table source after held copy own index (some handle)
        (some (table.attributeUri own wanted.uri))

/-- The attributes of an element under the URIs that they get on a copy. -/
structure Restates (table : AliasTable) (source after : Document) (held : Element)
    (copy : NodeId) (own : Option String) (restated : List Named) : Prop where
  length : restated.length = held.attributes.length
  each : ∀ index attr, held.attributes[index]? = some attr →
    ∃ ns : Option Declaration, restated[index]? = some ⟨attr.name, ns, attr.value⟩ ∧
      table.Renames source after held copy own index attr.ns (ns.map (·.binding.uri))

variable {table : AliasTable} {kept : Option String → Prop} {source after : Document}
  {outside : Site} {original copy : NodeId} {held : Element} {written : Written}
  {nodes copyNodes : List NodeId}

@[simp] theorem attributeUri_empty (own : Option String) (uri : String) :
    AliasTable.empty.attributeUri own uri = uri := by
  rw [attributeUri, show AliasTable.empty.target uri = uri from rfl, ite_self]

theorem attributePictures_eq (linked : after.Linked)
    (admits : Site.Admits ⟨copy, copyNodes.flatMap after.declared⟩ written)
    {name : String}
    (copyHeld : after.content copy = .ok (.element (written.element name))) :
    after.attributePictures copy = .ok (written.attributes.map Named.picture) := by
  have shown : ∀ named ∈ written.attributes,
      after.attributePicture named.toAttribute = .ok named.picture := by
    intro named member
    have uri : after.uri? (named.ns.map Declaration.handle) =
        .ok (named.ns.map (·.binding.uri)) :=
      Site.uri?_of_places linked copyHeld fun _ => admits.named member
    rw [attributePicture,
      show named.toAttribute.ns = named.ns.map Declaration.handle from rfl, uri]
    rfl
  rw [attributePictures, attributes_of_element copyHeld]
  refine Reading.mapM_of_forall₂ ?_
  exact List.forall₂_map_left_iff.mpr
    (List.forall₂_map_right_iff.mpr (List.forall₂_same.mpr shown))

/-- The attributes of a copy are put on it under the URIs that they get at their turns.
One gets none only for a reason. -/
theorem Copies.restates {site : Site}
    (ready : site.Ready (after.putElement site.id { name := held.name }) held.name)
    (linked : source.Linked) (sound : site.Sound) (tidy : Tidy held.declarations)
    (known : source.Known held) (outer : site.outer.Follows table kept outside.outer)
    (coherent : (outside.scope held.declarations).Coherent)
    (inScope : source.NamedIn (outside.scope held.declarations) held)
    (plain : kept none → source.ConsistentIn (outside.scope held.declarations) held ∧
      table.target "" = "" ∧ table.target xmlUri = xmlUri)
    (copies : table.Copies source site held written) :
    ∃ restated, written.attributes = Named.putAll restated ∧
      table.Restates source after held site.id (written.own.map (·.binding.uri))
        restated ∧
      ∀ index wanted, source.WantsAt held index wanted →
        table.CrowdsOut source after held site.id index wanted →
        table.Cause kept (source.Wants (held.before index)) wanted := by
  rcases copies.turns with ⟨restated, length, put, turns⟩
  -- At every turn the declarations of the copy follow the scope of the original.
  have followed {index : Nat} {mid : Written}
      (before : table.Copies source site (held.before index) mid) :
      site.Follows table kept (outside.scope held.declarations) mid.own
        (source.Wants (held.before index)) mid.declarations :=
    @Copies.follows table kept source site outside (held.before index) mid linked sound
      tidy outer coherent (inScope.before index)
      (fun isKept => (plain isKept).imp_left (·.before index)) before
  have crowdsOut {index : Nat} {mid : Written} {wanted : Binding}
      (before : table.Copies source site (held.before index) mid) :
      table.CrowdsOut source after held site.id index wanted ↔
        table.CrowdedOut site mid.own mid.declarations wanted :=
    crowdsOut_iff ready tidy known before
  refine ⟨restated, put, ⟨length, fun index attr listed => ?_⟩, ?_⟩
  · rcases turns index attr listed with
      ⟨mid, ns, declarations, before, own, standsIn, same⟩
    refine ⟨ns, same, ?_⟩
    have told := inScope.attributes attr (List.mem_of_getElem? listed)
    generalize attr.ns = wantedNs at standsIn told
    cases standsIn with
    | absent => exact .bare
    | @found handle wanted _ _ bound resolved =>
        by_cases crowds : table.CrowdsOut source after held site.id index wanted
        · rw [resolved.eq_none_of_crowdedOut ((crowdsOut before).mp crowds)]
          exact .crowded bound crowds
        · rcases told _ rfl with ⟨_, tells, _⟩
          cases bound.symm.trans tells.known
          rw [resolved.uri_eq (followed before).tidy tells.something
            fun crowded => crowds ((crowdsOut before).mpr crowded), own]
          exact .renamed bound crowds
  · intro index wanted wants crowds
    rcases inScope.exists_tells wants.wants with ⟨handle, tells, prefixed⟩
    have told : ∀ other, source.Wants (held.before index) other → ∃ handle,
        source.Tells (outside.scope held.declarations) handle other :=
      fun other isEarlier =>
        ((inScope.before index).exists_tells isEarlier).imp fun _ both => both.1
    rcases wants with ⟨attr, _, listed, _⟩
    rcases turns index attr listed with ⟨mid, _, _, before, _⟩
    exact ((crowdsOut before).mp crowds).cause (followed before) coherent told tells
      prefixed

theorem StandsFor.restates (stands : table.StandsFor source after original copy)
    (linked : source.Linked) (orderly : source.AllOrderly) (named : source.WellNamed)
    (attached : source.Attached original) (afterLinked : after.Linked)
    (afterOrderly : after.AllOrderly)
    (holds : source.content original = .ok (.element held))
    (way : source.Way original (original :: nodes))
    (copyWay : after.Way copy (copy :: copyNodes))
    (follows : (after.scopeAlong copyNodes).Follows table kept (source.scopeAlong nodes))
    (plain : kept none →
      source.Consistent ∧ table.target "" = "" ∧ table.target xmlUri = xmlUri) :
    ∃ own restated, after.namespaceUri? copy = .ok own ∧
      table.Restates source after held copy own restated ∧
      after.attributePictures copy = .ok ((Named.putAll restated).map Named.picture) ∧
      ∀ index wanted, source.WantsAt held index wanted →
        table.CrowdsOut source after held copy index wanted →
        table.Cause kept (source.Wants (held.before index)) wanted := by
  rcases stands.element holds with ⟨written, _, otherWay, copyHeld, admits, copies⟩
  cases otherWay.unique copyWay
  rcases named.inScope linked orderly attached holds way with ⟨coherent, inScope⟩
  have outer : (Site.outer ⟨copy, copyNodes.flatMap after.declared⟩).Follows table kept
      (Site.outer ⟨original, nodes.flatMap source.declared⟩) := follows
  rcases copies.restates (copyWay.ready afterLinked copyHeld held.name) linked
    (copyWay.sound afterLinked afterOrderly copyHeld) (orderly _ _ holds).tidy
    (named _ held attached holds).known outer coherent inScope
    (fun isKept => (plain isKept).imp_left (·.inScope linked attached holds way)) with
    ⟨restated, put, restates, cause⟩
  refine ⟨_, restated, ?_, restates, ?_, cause⟩
  · rw [namespaceUri?_of_element copyHeld]
    exact Site.uri?_of_places afterLinked copyHeld fun _ => admits.own
  · rw [attributePictures_eq afterLinked admits copyHeld, put]

end AliasTable

end ResultTree
