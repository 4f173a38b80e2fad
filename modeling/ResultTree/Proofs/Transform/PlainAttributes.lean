import ResultTree.Proofs.Transform.AttributeLists

namespace ResultTree

/-! Copying an element without aliases. Its attributes keep their URIs, unless one is left
without a namespace because its prefix was invented for an earlier one. -/

namespace Document

structure Shows (source : Document) (held : Attribute) (named : Named) : Prop where
  name : named.name = held.name
  uri : source.uri? held.ns = .ok named.uri
  value : named.value = held.value

variable {source : Document} {held : Element}

theorem Orderly.eq_of_alike (orderly : source.Orderly held) {index other : Nat}
    {left right : Attribute} (listed : held.attributes[index]? = some left)
    (otherListed : held.attributes[other]? = some right)
    (alike : source.Alike left right) :
    index = other := by
  rcases List.getElem?_eq_some_iff.mp listed with ⟨inside, rfl⟩
  rcases List.getElem?_eq_some_iff.mp otherListed with ⟨otherInside, rfl⟩
  have different := List.pairwise_iff_getElem.mp orderly.different
  rcases Nat.lt_trichotomy index other with before | same | after
  · exact absurd alike (different index other inside otherInside before)
  · exact same
  · exact absurd ⟨alike.1.symm, alike.2.symm⟩
      (different other index otherInside inside after)

theorem Orderly.picture_known (orderly : source.Orderly held) :
    ∀ attr ∈ held.attributes, ∃ picture, source.attributePicture attr = .ok picture := by
  intro attr member
  rcases orderly.known attr member with ⟨uri, known⟩
  exact ⟨(attr.name, uri, attr.value), by rw [attributePicture, known]; rfl⟩

theorem different_of_shows {attributes : List Attribute} {restated : List Named}
    (both : List.Forall₂ source.Shows attributes restated)
    (different : attributes.Pairwise fun left right => ¬ source.Alike left right) :
    Named.Different restated := by
  induction both with
  | nil => exact .nil
  | @cons attr named _ _ shows both induction =>
      rw [List.pairwise_cons] at different
      refine .cons ?_ (induction different.2)
      rintro other member ⟨sameName, sameUri⟩
      rcases exists_of_mem_right both member with ⟨otherAttr, otherMember, otherShows⟩
      refine different.1 otherAttr otherMember ⟨?_, ?_⟩
      · rw [← shows.name, sameName, otherShows.name]
      · rw [shows.uri, sameUri, otherShows.uri]

theorem pictures_of_shows {attributes : List Attribute} {restated : List Named}
    (both : List.Forall₂ source.Shows attributes restated) :
    attributes.mapM source.attributePicture = .ok (restated.map Named.picture) := by
  refine Reading.mapM_of_forall₂ (List.forall₂_map_right_iff.mpr (both.imp ?_))
  intro attr named shows
  rw [attributePicture, shows.uri, Named.picture, shows.name, shows.value]
  rfl

end Document

theorem Scope.follows_nothing (table : AliasTable) (result source : Scope) :
    result.Follows table (fun _ => False) source :=
  ⟨fun _ isKept => isKept.elim, fun _ _ isKept => isKept.elim⟩

namespace AliasTable

open Document

variable {source after : Document} {held : Element} {copy : NodeId} {own : Option String}
  {restated : List Named} {pictures : List (String × Option String × String)}

theorem Restates.exists_attribute
    (restates : AliasTable.empty.Restates source after held copy own restated)
    {index : Nat} {named : Named} (listed : restated[index]? = some named) :
    ∃ attr, held.attributes[index]? = some attr ∧ named.name = attr.name ∧
      named.value = attr.value ∧
      AliasTable.empty.Renames source after held copy own index attr.ns named.uri := by
  have inside := (List.getElem?_eq_some_iff.mp listed).1
  rw [restates.length] at inside
  have attrListed := List.getElem?_eq_getElem inside
  rcases restates.each index _ attrListed with ⟨ns, otherListed, renames⟩
  cases listed.symm.trans otherListed
  exact ⟨_, attrListed, rfl, rfl, renames⟩

theorem Renames.of_ne_none {index : Nat} {ns : Option Handle} {uri : Option String}
    (renames : AliasTable.empty.Renames source after held copy own index ns uri)
    (something : uri ≠ none) :
    source.uri? ns = .ok uri ∧ ∀ handle wanted, ns = some handle →
      source.binding handle = .ok wanted →
      ¬ AliasTable.empty.CrowdsOut source after held copy index wanted := by
  cases renames with
  | bare => exact absurd rfl something
  | crowded _ _ => exact absurd rfl something
  | renamed known roomy =>
      rw [attributeUri_empty]
      refine ⟨uri?_some_of known, ?_⟩
      rintro _ _ ⟨⟩ other
      cases known.symm.trans other
      exact roomy

theorem Restates.shows
    (restates : AliasTable.empty.Restates source after held copy own restated)
    (roomy : ∀ index wanted, source.WantsAt held index wanted →
      ¬ AliasTable.empty.CrowdsOut source after held copy index wanted) :
    List.Forall₂ source.Shows held.attributes restated := by
  refine List.forall₂_iff_get.mpr
    ⟨restates.length.symm, fun index inside otherInside => ?_⟩
  rcases restates.exists_attribute (List.getElem?_eq_getElem otherInside) with
    ⟨attr, listed, name, value, renames⟩
  cases (List.getElem?_eq_getElem inside).symm.trans listed
  refine ⟨name, ?_, value⟩
  simp only [List.get_eq_getElem]
  generalize ns : held.attributes[index].ns = wantedNs at renames ⊢
  generalize restated[index].uri = uri at renames ⊢
  cases renames with
  | bare => rfl
  | crowded known crowds => exact absurd crowds (roomy _ _ ⟨_, _, listed, ns, known⟩)
  | renamed known _ => rw [attributeUri_empty, uri?_some_of known]

/-- The copy shows the attributes of the source exactly if none is crowded out. -/
theorem Restates.putAll_eq_iff
    (restates : AliasTable.empty.Restates source after held copy own restated)
    (orderly : source.Orderly held) {pictures : List (String × Option String × String)}
    (shown : held.attributes.mapM source.attributePicture = .ok pictures) :
    (Named.putAll restated).map Named.picture = pictures ↔
      ∀ index wanted, source.WantsAt held index wanted →
        ¬ AliasTable.empty.CrowdsOut source after held copy index wanted := by
  constructor
  · rintro same index wanted ⟨attr, handle, listed, ns, known⟩
    rcases exists_getElem?_right (Reading.forall₂_of_mapM shown) listed with
      ⟨picture, pictureListed, pictureShown⟩
    rw [attributePicture, ns, uri?_some_of known] at pictureShown
    -- The copy has an attribute that shows the same. It has a namespace, so that it comes
    -- from one that is not crowded out, and there is no other of this name and URI.
    have member := List.mem_of_getElem? pictureListed
    rw [← same, ← Except.ok.inj pictureShown] at member
    rcases List.mem_map.mp member with ⟨named, namedMember, samePicture⟩
    rcases List.mem_iff_getElem?.mp (Named.mem_of_mem_putAll namedMember) with
      ⟨other, restatedAt⟩
    rcases restates.exists_attribute restatedAt with
      ⟨otherAttr, otherListed, name, _, renames⟩
    have sameName : named.name = attr.name := congrArg Prod.fst samePicture
    have sameUri : named.uri = some wanted.uri :=
      congrArg (fun picture => picture.2.1) samePicture
    rw [sameUri] at renames
    have renamed := renames.of_ne_none (Option.some_ne_none _)
    have alike : source.Alike attr otherAttr := by
      refine ⟨sameName.symm.trans name, ?_⟩
      rw [renamed.1, ns, uri?_some_of known]
    cases orderly.eq_of_alike listed otherListed alike
    cases listed.symm.trans otherListed
    exact renamed.2 handle wanted ns known
  · intro roomy
    have shows := restates.shows roomy
    have different := different_of_shows shows orderly.different
    rw [Named.putAll_eq_self different]
    exact Except.ok.inj ((pictures_of_shows shows).symm.trans shown)

end AliasTable

namespace Run

open Document

variable {run : Run} {node parent : NodeId} {held : Element}

/-- Without aliases, the copy of an element shows the attributes of the element exactly if
none of them is crowded out, which happens only to one whose prefix is that of an earlier
one followed by a number. -/
theorem attributes_copyNode (plain : run.stylesheet = {})
    (sourceReachable : run.source.Reachable) (named : run.source.WellNamed)
    (attached : run.source.Attached node)
    (holds : run.source.content node = .ok (.element held))
    (resultReachable : run.result.Reachable) (acyclic : run.result.Acyclic)
    (hosts : run.result.Hosts parent) :
    ∃ copy after own restated shown, run.copyNode node parent = .ok (.ok copy, after) ∧
      after.result.namespaceUri? copy = .ok own ∧
      AliasTable.empty.Restates run.source after.result held copy own restated ∧
      after.result.attributePictures copy =
        .ok ((Named.putAll restated).map Named.picture) ∧
      run.source.attributePictures node = .ok shown ∧
      (after.result.attributePictures copy = .ok shown ↔
        ∀ index wanted, run.source.WantsAt held index wanted →
          ¬ AliasTable.empty.CrowdsOut run.source after.result held copy index wanted) ∧
      ∀ index wanted, run.source.WantsAt held index wanted →
        AliasTable.empty.CrowdsOut run.source after.result held copy index wanted →
        ∃ other, run.source.Wants (held.before index) other ∧ wanted.Numbers other := by
  have linked := sourceReachable.linked
  have orderly := sourceReachable.orderly
  have resultLinked := resultReachable.linked
  rcases acyclic parent with ⟨above, parentWay⟩
  rcases AliasTable.standsFor_copyNode run.stylesheet.aliases orderly named attached holds
    (by simp) resultLinked hosts parentWay with ⟨result, outcome, changes, _, stands⟩
  rw [show run.stylesheet.aliases =
    AliasTable.empty from congrArg Stylesheet.aliases plain] at stands
  have afterLinked := changes.linked resultLinked
  have afterOrderly := changes.holds resultReachable.orderly Document.AllOrderly.kept
  rcases attached.exists_way linked with ⟨nodes, way⟩
  rcases stands.element holds with ⟨_, copyNodes, copyWay, _⟩
  rcases stands.restates linked orderly named attached afterLinked afterOrderly holds way
    copyWay (Scope.follows_nothing _ _ _) False.elim with
    ⟨own, restated, ownUri, restates, put, cause⟩
  rcases Reading.exists_mapM (orderly _ _ holds).picture_known with ⟨shown, answered⟩
  refine ⟨_, _, own, restated, shown, edit_of outcome, ownUri, restates, put, ?_, ?_, ?_⟩
  · rw [attributePictures, attributes_of_element holds, Reading.ok_bind, answered]
  · rw [put, Except.ok.injEq]
    exact restates.putAll_eq_iff (orderly _ _ holds) answered
  · intro index wanted wants crowds
    rcases cause index wanted wants crowds with
      ⟨_, aliased⟩ | ⟨other, isEarlier, numbers, _⟩
    · exact absurd rfl aliased
    · exact ⟨other, isEarlier, numbers⟩

/-! An element in a default namespace with two attributes. The first is in the same
namespace under a prefix that the result has for another one, the second has that prefix
with a number. -/

def numberedPrefixes : List Operation :=
  [.appendElement 0 "root", .declare 1 (some "p") "urn:d", .declare 1 (some "p1") "urn:z",
    .appendElement 1 "e", .declare 2 none "urn:d", .setNamespace 2 (some ⟨2, 0⟩),
    .setAttribute 2 "x" (some ⟨1, 0⟩) "1", .setAttribute 2 "y" (some ⟨1, 1⟩) "2"]

def takenPrefix : List Operation :=
  [.appendElement 0 "host", .declare 1 (some "p") "urn:other"]

theorem consistent_of_numberedPrefixes {source result : Document}
    (sourceMade : Document.after numberedPrefixes = some source)
    (resultMade : Document.after takenPrefix = some result) :
    source.Consistent ∧ source.Attached 2 ∧ result.Acyclic ∧ result.Hosts 1 := by
  cases sourceMade
  cases resultMade
  exact ⟨Document.consistent_of_all (by decide), .tail (.single rfl) rfl,
    Document.acyclic_of_climb (by decide), ⟨_, rfl, trivial⟩⟩

theorem attributes_copyNode_numberedPrefixes :
    ∃ source result held, Document.after numberedPrefixes = some source ∧
      Document.after takenPrefix = some result ∧ source.content 2 = .ok (.element held) ∧
      ∃ copy after shown,
        copyNode { stylesheet := {}, source, result } 2 1 = .ok (.ok copy, after) ∧
        source.attributePictures 2 = .ok shown ∧
        (after.result.attributePictures copy = .ok shown ↔
          ∀ index wanted, source.WantsAt held index wanted →
            ¬ AliasTable.empty.CrowdsOut source after.result held copy index wanted) ∧
        ∀ index wanted, source.WantsAt held index wanted →
          AliasTable.empty.CrowdsOut source after.result held copy index wanted →
          ∃ other, source.Wants (held.before index) other ∧ wanted.Numbers other := by
  have made : ∃ source result held, Document.after numberedPrefixes = some source ∧
      Document.after takenPrefix = some result ∧ source.content 2 = .ok (.element held) :=
    ⟨_, _, _, rfl, rfl, rfl⟩
  rcases made with ⟨source, result, held, sourceMade, resultMade, holds⟩
  rcases consistent_of_numberedPrefixes sourceMade resultMade with
    ⟨consistent, attached, acyclic, hosts⟩
  rcases @attributes_copyNode { stylesheet := {}, source, result } 2 1 held rfl
    (reachable_of_after sourceMade) consistent.wellNamed attached holds
    (reachable_of_after resultMade) acyclic hosts with
    ⟨copy, after, _, _, shown, copied, _, _, _, known, kept, cause⟩
  exact ⟨source, result, held, sourceMade, resultMade, holds, copy, after, shown,
    copied, known, kept, cause⟩

/-- The first attribute gets the prefix of the second, which is left without a
namespace. -/
theorem attributes_of_numberedPrefixes :
    ∃ source result, Document.after numberedPrefixes = some source ∧
      Document.after takenPrefix = some result ∧ source.Consistent ∧ source.Attached 2 ∧
      result.Acyclic ∧ result.Hosts 1 ∧
      ∃ after, copyNode { stylesheet := {}, source, result } 2 1 = .ok (.ok 2, after) ∧
        source.attributePictures 2 =
          .ok [("x", some "urn:d", "1"), ("y", some "urn:z", "2")] ∧
        after.result.attributePictures 2 =
          .ok [("x", some "urn:d", "1"), ("y", none, "2")] := by
  refine ⟨_, _, rfl, rfl, ?_⟩
  rcases consistent_of_numberedPrefixes rfl rfl with
    ⟨consistent, attached, acyclic, hosts⟩
  exact ⟨consistent, attached, acyclic, hosts, _, rfl, rfl, rfl⟩

end Run

end ResultTree
