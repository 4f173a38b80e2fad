import ResultTree.Proofs.Transform.Crowding
import ResultTree.Proofs.Transform.Renaming
import ResultTree.Proofs.Transform.Shadowing

namespace ResultTree

/-! What prefixes denote at a copy. A declaration of the copy agrees with what its prefix
denotes in the source, unless its prefix was invented for an attribute. What is said of
the scope holds of the prefixes that are `kept` above the copy, all of them or some or
none. -/

/-- The kept prefixes denote in a scope of the result what the aliases make of their
meaning in a scope of the source, the URI of transformations left out. -/
structure Scope.Follows (table : AliasTable) (kept : Option String → Prop)
    (result source : Scope) : Prop where
  rooted : ∀ nsPrefix, kept nsPrefix → Declaration.xml ∈ result.declarations
  denotes : ∀ (nsPrefix : Option String) (found : Declaration), kept nsPrefix →
    source.denoted? nsPrefix = some found → found.binding.uri ≠ transformUri →
    ∃ other, result.denoted? nsPrefix = some other ∧
      other.binding.uri = table.target found.binding.uri

def AliasTable.Agrees (table : AliasTable) (origin : Scope) (declared : Binding) : Prop :=
  ∀ found, origin.denoted? declared.nsPrefix = some found →
    declared.uri = table.target found.binding.uri

structure AliasTable.Invented (table : AliasTable) (kept : Option String → Prop)
    (origin : Scope) (own : Option Declaration) (wanted declared : Binding) : Prop where
  fromPrefix : ∃ base number, wanted.nsPrefix = some base ∧
    declared.nsPrefix = some (prefixCandidate base number)
  free : kept declared.nsPrefix →
    ∀ found, origin.denoted? declared.nsPrefix = some found →
    found.binding.uri = transformUri
  uri : declared.uri = table.attributeUri (own.map (·.binding.uri)) wanted.uri
  unnamed : kept wanted.nsPrefix → declared.uri = table.target wanted.uri →
    wanted.uri = transformUri

structure Site.Follows (table : AliasTable) (kept : Option String → Prop) (site : Site)
    (origin : Scope) (own : Option Declaration) (earlier : Binding → Prop)
    (present : List Binding) : Prop where
  tidy : Document.Tidy present
  scope : (site.scope present).Follows table kept origin
  declared : ∀ declared ∈ present, declared.nsPrefix ≠ none →
    table.Agrees origin declared ∨
      ∃ wanted, earlier wanted ∧ table.Invented kept origin own wanted declared

variable {table : AliasTable} {kept : Option String → Prop} {source : Document}
  {site outside : Site} {origin : Scope} {own answer : Option Declaration}
  {earlier : Binding → Prop} {present changed bindings : List Binding}
  {binding wanted : Binding} {handle : Handle}

open Document

theorem Scope.follows_xml (plain : kept (some "xml") → table.target xmlUri = xmlUri) :
    Scope.Follows table kept ⟨[Declaration.xml], false⟩ ⟨[Declaration.xml], false⟩ where
  rooted := fun _ _ => List.mem_singleton_self _
  denotes := by
    intro nsPrefix found isKept denoted _
    have isXml : found = .xml := by
      rcases Scope.mem_or_xml_of_denoted denoted with same | member
      · exact same
      · exact List.mem_singleton.mp member
    have own := Scope.prefix_of_denoted denoted
    subst isXml
    subst own
    exact ⟨.xml, denoted, (plain isKept).symm⟩

/-! ## What a copy declares -/

namespace Site

theorem Follows.add (follows : site.Follows table kept origin own earlier present)
    (declarable : Declarable present binding)
    (denotes : ∀ found, kept binding.nsPrefix →
      origin.denoted? binding.nsPrefix = some found →
      found.binding.uri ≠ transformUri → binding.uri = table.target found.binding.uri)
    (declared : binding.nsPrefix ≠ none → table.Agrees origin binding ∨
      ∃ wanted, earlier wanted ∧ table.Invented kept origin own wanted binding) :
    site.Follows table kept origin own earlier (present ++ [binding]) where
  tidy := follows.tidy.declare declarable
  scope := by
    have tidy := follows.tidy.declare declarable
    refine ⟨fun nsPrefix isKept => ?_,
      fun nsPrefix found isKept denoted notTransform => ?_⟩
    · rcases List.mem_append.mp (follows.scope.rooted nsPrefix isKept) with
        member | member
      · refine List.mem_append_left _ ?_
        rw [declared_append]
        exact List.mem_append_left _ member
      · exact List.mem_append_right _ member
    by_cases same : binding.nsPrefix = nsPrefix
    · subst same
      exact ⟨site.added present binding,
        denoted_scope_of_mem tidy (added_mem_declared present binding),
        denotes found isKept denoted notTransform⟩
    · rcases follows.scope.denotes nsPrefix found isKept denoted notTransform with
        ⟨other, followed, sameUri⟩
      exact ⟨other, denoted_append_of_ne follows.tidy declarable same followed, sameUri⟩
  declared := by
    intro other member
    rcases List.mem_append.mp member with member | member
    · exact follows.declared other member
    · rw [List.mem_singleton.mp member]
      exact declared

theorem follows_cloned (tidy : Tidy bindings)
    (outer : site.outer.Follows table kept outside.outer) :
    site.Follows table kept (outside.scope bindings) own earlier
      (table.cloned bindings) where
  tidy := tidy.cloned table
  scope := by
    have clonedTidy := tidy.cloned table
    refine ⟨fun nsPrefix isKept => List.mem_append_right _ (outer.rooted nsPrefix isKept),
      fun nsPrefix found isKept denoted notTransform => ?_⟩
    rcases (denoted_scope_iff tidy).mp denoted with ⟨member, rfl⟩ | ⟨above, undeclared⟩
    · have held := List.mem_of_getElem? (mem_declared_iff.mp member).2
      have cloned : table.restate found.binding ∈ table.cloned bindings :=
        List.mem_map_of_mem (List.mem_filter.mpr ⟨held, by simpa using notTransform⟩)
      rw [← @map_binding_declared site (table.cloned bindings)] at cloned
      rcases List.mem_map.mp cloned with ⟨other, otherMember, same⟩
      have denotedHere := denoted_scope_of_mem clonedTidy otherMember
      rw [same] at denotedHere
      exact ⟨other, denotedHere, congrArg Binding.uri same⟩
    · rcases outer.denotes nsPrefix found isKept above notTransform with
        ⟨other, followed, sameUri⟩
      refine ⟨other, (denoted_scope_iff clonedTidy).mpr (.inr ⟨followed, ?_⟩), sameUri⟩
      intro declared member
      rcases List.mem_map.mp member with ⟨original, originalMember, rfl⟩
      exact undeclared original (List.mem_filter.mp originalMember).1
  declared := by
    intro declared member _
    rcases List.mem_map.mp member with ⟨original, originalMember, rfl⟩
    have held := (List.mem_filter.mp originalMember).1
    rw [← @map_binding_declared outside bindings] at held
    rcases List.mem_map.mp held with ⟨declaration, declarationMember, rfl⟩
    refine .inl fun found denoted => ?_
    cases (denoted_scope_of_mem tidy declarationMember).symm.trans denoted
    rfl

theorem Follows.undeclareDefault
    (follows : site.Follows table kept origin own earlier present)
    (bare : kept none → ∀ found, origin.denoted? none = some found →
      table.target found.binding.uri = "") :
    site.Follows table kept origin own earlier (site.undeclareDefault present) := by
  rcases undeclareDefault_cases follows.tidy with same | ⟨declarable, same⟩
  · rwa [same]
  · rw [same]
    refine follows.add declarable (fun found isKept denoted _ => ?_) (fun named => ?_)
    · exact (bare isKept found denoted).symm
    · exact absurd rfl named

end Site

namespace AliasTable

open Site

theorem agrees_restate
    (denoted : origin.denoted? wanted.nsPrefix = some ⟨handle, wanted⟩) :
    table.Agrees origin (table.restate wanted) := by
  intro found other
  cases denoted.symm.trans other
  rfl

theorem Resolves.follows {beginning : Option Declaration}
    (follows : site.Follows table kept origin own earlier present)
    (tells : source.Tells origin handle wanted)
    (resolved : table.Resolves site present beginning wanted answer changed) :
    site.Follows table kept origin own earlier changed := by
  cases resolved with
  | missing _ _ declares _ =>
      have agrees : table.Agrees origin (table.restate wanted) :=
        agrees_restate tells.denoted
      cases declares with
      | declared declarable =>
          exact follows.add declarable (fun found _ denoted _ => agrees found denoted)
            fun _ => .inl agrees
      | refused _ => exact follows
  | _ => exact follows

theorem uri_of_unprefixed (follows : site.Follows table kept origin own earlier present)
    (sound : site.Sound) (tells : source.Tells origin handle wanted)
    (prefixed : wanted.nsPrefix ≠ none)
    (missing : prefixed? (site.scope present) (table.target wanted.uri) = none)
    (isKept : kept wanted.nsPrefix) : wanted.uri = transformUri := by
  by_contra notTransform
  rcases follows.scope.denotes _ _ isKept tells.denoted notTransform with
    ⟨other, followed, sameUri⟩
  have seen := (sound.coherent_scope follows.tidy).mem_visible_of_denoted
    (follows.scope.rooted _ isKept) followed
  have unlike := List.find?_eq_none.mp missing other seen
  simp [Scope.prefix_of_denoted followed, Option.isSome_iff_ne_none, prefixed, sameUri]
    at unlike

theorem ResolvesAttribute.follows (sound : site.Sound)
    (follows : site.Follows table kept origin own earlier present)
    (tells : source.Tells origin handle wanted) (prefixed : wanted.nsPrefix ≠ none)
    (isEarlier : earlier wanted)
    (resolved : table.ResolvesAttribute site present own wanted answer changed) :
    site.Follows table kept origin own earlier changed := by
  cases resolved with
  | nothing resolved => exact resolved.follows follows tells
  | named resolved _ => exact resolved.follows follows tells
  | replaced resolved _ _ => exact resolved.follows follows tells
  | @invented bare changed _ nsPrefix _ resolved _ missing free declares =>
      have followed := resolved.follows follows tells
      cases declares with
      | refused _ => exact followed
      | declared declarable =>
          have uri : bare.binding.uri =
              table.attributeUri (own.map (·.binding.uri)) wanted.uri := by
            refine Option.some.inj (resolved.uri_eq tells.something fun crowded => ?_)
            cases resolved.eq_none_of_crowdedOut crowded
          have nothing : ∀ found, kept (some nsPrefix) →
              origin.denoted? (some nsPrefix) = some found →
              found.binding.uri = transformUri := by
            intro found isKept denoted
            by_contra notTransform
            rcases followed.scope.denotes _ found isKept denoted notTransform with
              ⟨_, taken, _⟩
            cases taken.symm.trans (denoted_eq_none_of_free free)
          refine followed.add declarable
            (fun found isKept denoted notTransform =>
              absurd (nothing found isKept denoted) notTransform)
            fun _ =>
              .inr ⟨wanted, isEarlier, ?_, fun isKept found => nothing found isKept, uri,
              fun isKept same => ?_⟩
          · rcases Option.ne_none_iff_exists'.mp prefixed with ⟨base, ownPrefix⟩
            rw [ownPrefix, Option.getD_some] at free
            rcases exists_number_of_freePrefix free with ⟨number, rfl⟩
            exact ⟨base, number, ownPrefix, rfl⟩
          · have same' : bare.binding.uri = table.target wanted.uri := same
            rw [same'] at missing
            exact uri_of_unprefixed followed sound tells prefixed missing isKept

/-! ## A whole element -/

variable {held : Element} {attributes : List Attribute} {written last : Written}

theorem Writes.follows (sound : site.Sound)
    (writes : table.Writes source site attributes written last)
    (follows : site.Follows table kept origin written.own earlier written.declarations)
    (tells : ∀ named ∈ attributes, ∀ handle, named.ns = some handle →
      ∃ wanted, source.Tells origin handle wanted ∧ wanted.nsPrefix ≠ none)
    (wanting : ∀ named ∈ attributes, ∀ handle, named.ns = some handle → ∀ wanted,
      source.binding handle = .ok wanted → earlier wanted) :
    site.Follows table kept origin last.own earlier last.declarations := by
  induction writes with
  | done _ => exact follows
  | @next named rest written _ ns declarations standsIn _ induction =>
      have followed :
          site.Follows table kept origin written.own earlier declarations := by
        have told := tells named (by simp)
        have wanted := wanting named (by simp)
        generalize named.ns = wantedNs at standsIn told wanted
        cases standsIn with
        | absent => exact follows
        | found known resolved =>
            rcases told _ rfl with ⟨_, tells, prefixed⟩
            cases known.symm.trans tells.known
            exact resolved.follows sound follows tells prefixed (wanted _ rfl _ known)
      exact induction followed
        (fun other member => tells other (List.mem_cons_of_mem _ member))
        fun other member => wanting other (List.mem_cons_of_mem _ member)

theorem Copies.ns_eq_none (linked : source.Linked) (tidy : Tidy held.declarations)
    (coherent : (outside.scope held.declarations).Coherent)
    (inScope : source.NamedIn (outside.scope held.declarations) held)
    (plain : table.target xmlUri = xmlUri)
    (copies : table.Copies source site held written) (nothing : written.own = none) :
    held.ns = none := by
  have stays : ¬ table.StrandsAt site held := by
    rintro ⟨_, missing⟩
    rw [plain, Scope.taken?, if_pos rfl] at missing
    cases missing
  rcases copies.renames linked tidy coherent inScope with ⟨uri, known, _, renamed⟩
  have same := renamed stays
  rw [nothing] at same
  cases ns : held.ns with
  | none => rfl
  | some handle =>
      rcases inScope.own handle ns with ⟨wanted, tells⟩
      rw [ns, uri?_some_of tells.known] at known
      cases known
      cases same

/-- The declarations of a copy follow what is in scope at the original. -/
theorem Copies.follows (linked : source.Linked) (sound : site.Sound)
    (tidy : Tidy held.declarations) (outer : site.outer.Follows table kept outside.outer)
    (coherent : (outside.scope held.declarations).Coherent)
    (inScope : source.NamedIn (outside.scope held.declarations) held)
    (plain : kept none → source.ConsistentIn (outside.scope held.declarations) held ∧
      table.target "" = "" ∧ table.target xmlUri = xmlUri)
    (copies : table.Copies source site held written) :
    site.Follows table kept (outside.scope held.declarations) written.own
      (source.Wants held) written.declarations := by
  have unnamed := fun isKept => copies.ns_eq_none linked tidy coherent inScope
    (plain isKept).2.2
  cases copies with
  | @copy own declarations _ named writes =>
      rw [writes.own_eq] at unnamed
      have started : site.Follows table kept (outside.scope held.declarations) own
          (source.Wants held) declarations := by
        have cloned : site.Follows table kept (outside.scope held.declarations) own
            (source.Wants held) (table.cloned held.declarations) :=
              follows_cloned tidy outer
        have told := inScope.own
        generalize held.ns = ns at named told
        cases named with
        | absent => exact cloned
        | found known resolved =>
            rcases told _ rfl with ⟨_, tells⟩
            cases known.symm.trans tells.known
            exact resolved.follows cloned tells
      refine writes.follows sound ?_ inScope.attributes
        fun other member handle ns wanted known => ⟨other, member, handle, ns, known⟩
      split
      · next nothing =>
          refine started.undeclareDefault fun isKept found denoted => ?_
          rcases plain isKept with ⟨consistent, empty, _⟩
          rw [consistent.bare (unnamed isKept nothing) found denoted, empty]
      · exact started

/-! ## All copies -/

section

variable {before after : Document} {original copy node parent : NodeId}
  {nodes copyNodes : List NodeId}

theorem StandsFor.follows (stands : table.StandsFor source after original copy)
    (linked : source.Linked) (orderly : source.AllOrderly) (named : source.WellNamed)
    (attached : source.Attached original) (afterLinked : after.Linked)
    (afterOrderly : after.AllOrderly) (way : source.Way original (original :: nodes))
    (copyWay : after.Way copy (copy :: copyNodes))
    (follows : (after.scopeAlong copyNodes).Follows table kept (source.scopeAlong nodes))
    (plain : kept none →
      source.Consistent ∧ table.target "" = "" ∧ table.target xmlUri = xmlUri) :
    (after.scopeAlong (copy :: copyNodes)).Follows table kept
      (source.scopeAlong (original :: nodes)) := by
  rcases stands with ⟨node, copied, above, found, copyFound, otherWay, content⟩
  cases otherWay.unique copyWay
  have held := content_of found
  have copyHeld := content_of copyFound
  generalize node.content = sourceContent at held content
  generalize copied.content = copyContent at copyHeld content
  cases content with
  | @element holder written admits copies =>
      rcases named.inScope linked orderly attached held way with ⟨coherent, inScope⟩
      rw [@scopeAlong_eq_scope _ _ nodes _ held,
        @scopeAlong_eq_scope _ _ copyNodes _ copyHeld]
      have outer :
          (Site.outer ⟨copy, copyNodes.flatMap after.declared⟩).Follows table kept
          (Site.outer ⟨original, nodes.flatMap source.declared⟩) := follows
      exact (copies.follows linked (copyWay.sound afterLinked afterOrderly copyHeld)
        (orderly _ _ held).tidy outer coherent inScope fun isKept =>
          (plain isKept).imp_left (·.inScope linked attached held way)).scope
  | _ => rwa [scopeAlong_of_undeclared held rfl, scopeAlong_of_undeclared copyHeld rfl]

/-- Down from a node whose copy has a scope that follows its own, all copies have. -/
theorem Graft.follows
    (graft : table.Graft source before after parent (source.grafted node))
    (linked : source.Linked) (orderly : source.AllOrderly) (named : source.WellNamed)
    (attached : source.Attached node) (inside : parent < before.size)
    (afterLinked : after.Linked) (afterOrderly : after.AllOrderly) (plain : kept none →
      source.Consistent ∧ table.target "" = "" ∧ table.target xmlUri = xmlUri)
    (top : ∃ nodes copyNodes, source.Way node nodes ∧
      after.Way (if node = root then parent else before.size) copyNodes ∧
      (after.scopeAlong copyNodes).Follows table kept (source.scopeAlong nodes))
    (isCopy :
      source.IsCopy before after node (if node = root then parent else before.size)
      original copy) :
    ∃ nodes copyNodes, source.Way original nodes ∧ after.Way copy copyNodes ∧
      (after.scopeAlong copyNodes).Follows table kept (source.scopeAlong nodes) := by
  induction isCopy with
  | self => exact top
  | @child original copied child childCopy index parents listed copyListed induction =>
      rcases induction with ⟨nodes, copyNodes, way, copyWay, follows⟩
      have member := List.mem_of_getElem? listed
      have childWay := way.child linked member
      have copyChildWay := copyWay.child afterLinked (List.mem_of_getElem? copyListed)
      have childAttached :=
        (attached_of_isCopy linked attached parents).child linked member
      refine ⟨_, _, childWay, copyChildWay, ?_⟩
      rcases graft.paired_of_isCopy linked attached inside
        (.child parents listed copyListed) with
        ⟨_, isRoot, _⟩ | paired
      · exact absurd isRoot (linked.childNotRoot member)
      · exact (graft.copied paired).content.follows linked orderly named childAttached
          afterLinked afterOrderly childWay copyChildWay follows plain

end

end AliasTable

end ResultTree
