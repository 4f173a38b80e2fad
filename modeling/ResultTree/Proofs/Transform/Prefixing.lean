import ResultTree.Proofs.Transform.Refusal
import ResultTree.Proofs.Transform.Turns

namespace ResultTree

/-! The namespaces of attributes have prefixes. Where a default binding is resolved for
one, a prefixed binding of its URI that is in scope is taken in its place, or one is
declared under the first candidate that is free there. There always is such a candidate,
it can be declared, and it hides nothing, because it denoted nothing before. -/

namespace Document

variable {document changed : Document} {id : NodeId}

def PrefixedAttributes (document : Document) (id : NodeId) : Prop :=
  ∀ element : Element, document.content id = .ok (.element element) →
    ∀ attr ∈ element.attributes, ∀ handle, attr.ns = some handle →
      ∃ binding, document.binding handle = .ok binding ∧ binding.nsPrefix ≠ none

def FreeAt (document : Document) (id : NodeId) (text : String) : Prop :=
  text ∉ Binding.reservedPrefixes ∧ document.findPrefix id (some text) = .ok none

structure FirstFree (document : Document) (id : NodeId) (base : String) (number : Nat) :
    Prop where
  free : document.FreeAt id (prefixCandidate base number)
  earlier : ∀ smaller < number, ¬ document.FreeAt id (prefixCandidate base smaller)

/-- A handle stands in at a node for a default binding of a URI. It has a prefix that
denotes it. Either it was there, or it is newly declared under the first candidate that
is free, and then no prefix has lost what it denoted. -/
structure Replaced (resolved changed : Document) (id : NodeId) (base uri : String)
    (handle : Handle) : Prop where
  named : ∃ binding, changed.binding handle = .ok binding ∧ binding.nsPrefix ≠ none ∧
    binding.uri = uri ∧ changed.findPrefix id binding.nsPrefix = .ok (some handle)
  searched : ∃ number, resolved.FirstFree id base number ∧
    (changed = resolved ∨
      (Edit.declare id (some (prefixCandidate base number)) uri).on resolved =
        .ok (.ok handle, changed))
  hidesNothing : ∀ nsPrefix found, resolved.findPrefix id nsPrefix = .ok (some found) →
    changed.findPrefix id nsPrefix = .ok (some found)

theorem prefixedAttributes_of_outside (outside : document.size ≤ id) :
    document.PrefixedAttributes id := by
  intro element held
  exact absurd (lt_size_of_content held) (Nat.not_lt_of_le outside)

theorem prefixedAttributes_of_newest {fresh : Nat}
    (size : changed.size = document.size + 1) (outside : document.size ≤ fresh)
    (newest : changed.PrefixedAttributes document.size) :
    changed.PrefixedAttributes fresh := by
  rcases Nat.eq_or_lt_of_le outside with rfl | beyond
  · exact newest
  · exact prefixedAttributes_of_outside (size ▸ beyond)

theorem prefixedAttributes_of_isFresh {node : Node}
    (found : document.nodes[id]? = some node) (fresh : node.content.IsFresh) :
    document.PrefixedAttributes id := by
  intro element held attr member
  rw [content_of found] at held
  rw [Except.ok.inj held] at fresh
  rw [show element.attributes = [] from congrArg Element.attributes fresh] at member
  cases member

end Document

open Document

namespace Site

/-! ## Replacing a default binding at a site -/

inductive Replaces (site : Site) (present : List Binding) (base uri : String) :
    Declaration → List Binding → Prop
  | visible {found : Declaration} (prefixed : found.binding.nsPrefix ≠ none)
      (same : found.binding.uri = uri)
      (denoted : (site.scope present).denoted? found.binding.nsPrefix = some found) :
      Replaces site present base uri found present
  | invented {nsPrefix : String}
      (free : freePrefix? ((site.scope present).visible.map (·.binding.nsPrefix)) base =
        some nsPrefix) :
      Replaces site present base uri (site.added present ⟨some nsPrefix, uri⟩)
        (present ++ [⟨some nsPrefix, uri⟩])

variable {site : Site} {present left : List Binding} {base uri : String}
  {found : Declaration} {nsPrefix : Option String} {other : Declaration}

theorem Replaces.prefixed (replaces : site.Replaces present base uri found left) :
    found.binding.nsPrefix ≠ none := by
  cases replaces with
  | visible prefixed _ _ => exact prefixed
  | invented _ => exact Option.some_ne_none _

theorem Replaces.uri_eq (replaces : site.Replaces present base uri found left) :
    found.binding.uri = uri := by
  cases replaces with
  | visible _ same _ => exact same
  | invented _ => rfl

theorem Replaces.denoted (replaces : site.Replaces present base uri found left)
    (tidy : Tidy present) :
    (site.scope left).denoted? found.binding.nsPrefix = some found := by
  cases replaces with
  | visible _ _ denoted => exact denoted
  | invented free =>
      exact denoted_scope_of_mem (tidy.declare (declarable_of_free tidy free uri))
        (added_mem_declared _ _)

theorem Replaces.keeps (replaces : site.Replaces present base uri found left)
    (tidy : Tidy present)
    (denoted : (site.scope present).denoted? nsPrefix = some other) :
    (site.scope left).denoted? nsPrefix = some other := by
  cases replaces with
  | visible _ _ _ => exact denoted
  | @invented invented free =>
      refine denoted_append_of_ne tidy (declarable_of_free tidy free uri) ?_ denoted
      rintro rfl
      cases denoted.symm.trans (denoted_eq_none_of_free free)

namespace Ready

variable {document : Document} {name : String} (written : Written)

/-! ## The same on a page -/

theorem page_freeAt_iff (ready : site.Ready document name) (text : String) :
    (site.page document name written).FreeAt site.id text ↔
      some text ∉ Binding.reservedPrefixes.map some ++
        (site.scope written.declarations).visible.map (·.binding.nsPrefix) := by
  rw [Scope.not_mem_excluded_iff, FreeAt, ready.page_findPrefix, Except.ok.injEq,
    Option.map_eq_none_iff]

theorem page_firstFree (ready : site.Ready document name) {invented : String}
    (free :
      freePrefix? ((site.scope written.declarations).visible.map (·.binding.nsPrefix))
      base = some invented) :
    ∃ number, invented = prefixCandidate base number ∧
      (site.page document name written).FirstFree site.id base number := by
  rcases first_of_freePrefix free with ⟨number, rfl, earlier⟩
  have freeAt :=
    (ready.page_freeAt_iff written _).mpr (not_mem_excluded_of_freePrefix free)
  refine ⟨number, rfl, freeAt, fun smaller before smallerFree => ?_⟩
  exact (ready.page_freeAt_iff written _).mp smallerFree (earlier smaller before)

theorem replaced (ready : site.Ready document name) (tidy : Tidy written.declarations)
    (replaces : site.Replaces written.declarations base uri found left) :
    (site.page document name written).Replaced
      (site.page document name { written with declarations := left }) site.id base uri
      found.handle where
  named := by
    have denoted := replaces.denoted tidy
    refine ⟨found.binding, ?_, replaces.prefixed, replaces.uri_eq, ?_⟩
    · exact ready.page_binding { written with declarations := left }
        (places_of_denoted denoted)
    · rw [ready.page_findPrefix, denoted, Option.map_some]
  searched := by
    cases replaces with
    | visible _ _ _ =>
        rcases exists_freePrefix
          ((site.scope written.declarations).visible.map (·.binding.nsPrefix)) base with
          ⟨invented, free⟩
        rcases ready.page_firstFree written free with ⟨number, _, first⟩
        exact ⟨number, first, .inl rfl⟩
    | invented free =>
        have declarable := declarable_of_free tidy free uri
        rcases ready.page_firstFree written free with ⟨number, rfl, first⟩
        refine ⟨number, first, .inr (Edit.on_of ?_)⟩
        rw [Edit.outcome_declare_of (ready.page_held written) declarable]
        exact Prod.ext rfl (@put site document name written { written with
          declarations :=
            written.declarations ++ [⟨some (prefixCandidate base number), uri⟩] })
  hidesNothing := by
    intro nsPrefix handle answered
    rw [ready.page_findPrefix, Except.ok.injEq, Option.map_eq_some_iff] at answered
    rcases answered with ⟨other, denoted, rfl⟩
    rw [ready.page_findPrefix, replaces.keeps tidy denoted, Option.map_some]

end Ready

end Site

namespace AliasTable

variable {table : AliasTable} {source before after begun : Document} {site : Site}
  {present changed left : List Binding} {own answer : Option Declaration}
  {wanted : Binding} {bare found : Declaration} {held : Element} {written last : Written}
  {original copy : NodeId}

/-! ## Resolving for an attribute -/

theorem ResolvesAttribute.prefixed
    (resolved : table.ResolvesAttribute site present own wanted (some found) changed) :
    found.binding.nsPrefix ≠ none := by
  cases resolved with
  | named _ named => exact named
  | replaced _ _ visible => exact (prefixed?_spec visible).2.1
  | invented _ _ _ _ declares =>
      cases declares with
      | declared _ => exact Option.some_ne_none _

theorem ResolvesAttribute.replaces (sound : site.Sound) (tidy : Tidy present)
    (resolvedAttribute : table.ResolvesAttribute site present own wanted answer left)
    (resolved : table.Resolves site present own wanted (some bare) changed)
    (unnamed : bare.binding.nsPrefix = none) :
    ∃ found, answer = some found ∧
      site.Replaces changed (wanted.nsPrefix.getD "ns") bare.binding.uri found left := by
  have changedTidy := resolved.tidy tidy
  cases resolvedAttribute with
  | nothing again => cases (resolved.unique again).1
  | named again named =>
      cases (resolved.unique again).1
      exact absurd unnamed named
  | @replaced _ declaration _ again _ visible =>
      rcases resolved.unique again with ⟨same, rfl⟩
      cases same
      rcases prefixed?_spec visible with ⟨seen, prefixed, sameUri⟩
      exact ⟨declaration, rfl, .visible prefixed sameUri
        ((sound.coherent_scope changedTidy).denoted_of_mem_visible seen)⟩
  | invented again _ _ free declares =>
      rcases resolved.unique again with ⟨same, rfl⟩
      cases same
      cases declares with
      | declared _ => exact ⟨_, rfl, .invented free⟩
      | refused undeclarable =>
          exact absurd (Site.declarable_of_free changedTidy free _) undeclarable

theorem Writes.prefixed {attributes : List Attribute}
    (writes : table.Writes source site attributes written last)
    (earlier : ∀ named ∈ written.attributes, ∀ found, named.ns = some found →
      found.binding.nsPrefix ≠ none) :
    ∀ named ∈ last.attributes, ∀ found, named.ns = some found →
      found.binding.nsPrefix ≠ none := by
  induction writes with
  | done _ => exact earlier
  | @next attr rest written _ ns declarations standsIn _ induction =>
      refine induction fun named member found same => ?_
      rcases Named.mem_put member with rfl | member
      · have added : ns = some found := same
        subst added
        generalize attr.ns = wantedNs at standsIn
        cases standsIn with
        | found _ resolved => exact resolved.prefixed
      · exact earlier named member found same

theorem Copies.prefixed (copies : table.Copies source site held written) :
    ∀ named ∈ written.attributes, ∀ found, named.ns = some found →
      found.binding.nsPrefix ≠ none := by
  cases copies with
  | copy _ writes => exact writes.prefixed (by simp)

/-! ## In a document -/

theorem StandsFor.prefixedAttributes (stands : table.StandsFor source after original copy)
    (linked : after.Linked) : after.PrefixedAttributes copy := by
  intro element copyHeld attr member handle ns
  rcases stands with ⟨node, copied, above, found, copyFound, way, content⟩
  have same := copyHeld
  rw [content_of copyFound] at same
  rw [Except.ok.inj same] at content
  generalize node.content = originalContent at content
  cases content with
  | element admits copies =>
      rcases List.mem_map.mp member with ⟨named, namedMember, rfl⟩
      rcases Option.map_eq_some_iff.mp ns with ⟨declaration, ownNamed, rfl⟩
      exact ⟨declaration.binding,
        (admits.named namedMember ownNamed).binding linked copyHeld,
        copies.prefixed named namedMember declaration ownNamed⟩

/-- Copying an element can stop before any of its attributes and go on from there. -/
theorem copyElement_eq_before (table : AliasTable) (source : Document) (held : Element)
    (parent : NodeId) (index : Nat) :
    table.copyElement source held parent = (do
      let copy ← table.copyElement source (held.before index) parent
      (held.attributes.drop index).forM (table.copyAttribute source copy)
      return copy) := by
  have written (copy : NodeId) : table.writeElement source held copy = (do
      table.writeElement source (held.before index) copy
      (held.attributes.drop index).forM (table.copyAttribute source copy)) := by
    have parts : held.attributes.forM (table.copyAttribute source copy) = (do
        (held.attributes.take index).forM (table.copyAttribute source copy)
        (held.attributes.drop index).forM (table.copyAttribute source copy)) :=
      (congrArg (List.forM · (table.copyAttribute source copy))
        (List.take_append_drop index held.attributes)).symm.trans List.forM_append
    simp only [writeElement, bind_assoc, parts]
    refine bind_congr fun _ => bind_congr fun ns => bind_congr fun _ => ?_
    split
    · simp only [bind_assoc]
      rfl
    · rfl
  simp only [copyElement_eq, written, bind_assoc, pure_bind]
  rfl

/-- `begun` is what the copying of an element has come to at the turn of the attribute
at a place. -/
structure Turn (table : AliasTable) (source before begun after : Document)
    (held : Element) (parent copy : NodeId) (index : Nat) : Prop where
  reached : (table.copyElement source (held.before index) parent).on before =
    .ok (.ok copy, begun)
  rest : ((held.attributes.drop index).forM (table.copyAttribute source copy)).on begun =
    .ok (.ok (), after)

def ReplacesDefaults (table : AliasTable) (begun : Document) (copy : NodeId) : Prop :=
  ∀ wanted bare binding resolved,
    (table.resolve wanted copy).on begun = .ok (.ok (some bare), resolved) →
    resolved.binding bare = .ok binding → binding.nsPrefix = none →
    ∃ handle changed,
      (table.resolveAttribute wanted copy).on begun = .ok (.ok (some handle), changed) ∧
        resolved.Replaced changed copy (wanted.nsPrefix.getD "ns") binding.uri handle

theorem replacesDefaults_page {document : Document} {name : String}
    (ready : site.Ready document name) (sound : site.Sound) (admits : site.Admits written)
    (table : AliasTable) :
    table.ReplacesDefaults (site.page document name written) site.id := by
  intro wanted bare binding resolved answered known unnamed
  rcases ready.resolve admits table wanted with ⟨answer, declarations, resolves, result⟩
  have same := (Edit.on_of result).symm.trans answered
  simp only [Except.ok.injEq, Prod.mk.injEq] at same
  rcases same with ⟨named, rfl⟩
  rcases Option.map_eq_some_iff.mp named with ⟨found, rfl, rfl⟩
  have places := admits.resolved resolves
  cases (ready.page_binding { written with declarations } places).symm.trans known
  rcases ready.resolveAttribute admits table wanted with
    ⟨_, left, resolvesAttribute, carried⟩
  rcases resolvesAttribute.replaces sound admits.tidy resolves unnamed with
    ⟨other, rfl, replaces⟩
  exact ⟨other.handle, _, Edit.on_of carried,
    ready.replaced { written with declarations } (resolves.tidy admits.tidy) replaces⟩

variable {parent node : NodeId} {nodes : List NodeId}

theorem exists_turn (linked : before.Linked) (orderly : before.AllOrderly)
    (hosts : before.Hosts parent) (way : before.Way parent nodes)
    (heldOrderly : source.Orderly held) (known : source.Known held)
    (copied : Edit.outcome (table.copyElement source held parent) before =
      (.ok (.ok copy), after)) (index : Nat) :
    ∃ begun, table.Turn source before begun after held parent copy index ∧
      table.ReplacesDefaults begun copy := by
  have ready := hosts.ready linked way held.name
  have sound := ready.sound
    ((hosts.changes (Content.isFresh_element held.name)).holds orderly AllOrderly.kept)
  rcases outcome_copyElement table linked hosts way (heldOrderly.before index)
    (known.before index) with ⟨written, admits, _, reached⟩
  rw [← putElement_appended { name := held.name }] at reached
  rcases @Site.Ready.copyAttributes _ _ source _ written ready table
    (held.attributes.drop index) admits (fun attr member handle ns =>
      known handle
        (Element.mem_handles_of_attribute (List.mem_of_mem_drop member) ns)) with
    ⟨last, _, _, rest⟩
  rw [copyElement_eq_before table source held parent index, Edit.outcome_bind_of reached]
    at copied
  cases copied.symm.trans (Edit.outcome_bind_of rest)
  exact ⟨_, ⟨Edit.on_of reached, Edit.on_of rest⟩,
    replacesDefaults_page ready sound admits table⟩

/-- Whatever becomes of copying a node, the attributes of the new nodes have prefixes for
their namespaces. If it is an element, it is answered with a copy, and at the turn of each
of its attributes every default binding can be replaced. -/
theorem exists_prefixed_copyNode (table : AliasTable) (linked : source.Linked)
    (sourceOrderly : source.AllOrderly) (known : source.AllKnown)
    (inside : node < source.size) (beforeLinked : before.Linked)
    (orderly : before.AllOrderly) (way : before.Way parent nodes)
    (parentInside : parent < before.size) :
    ∃ answer after, Edit.outcome (table.copyNode source node parent) before =
      (.ok answer, after) ∧
      (∀ fresh : Nat, before.size ≤ fresh → after.PrefixedAttributes fresh) ∧
      ∀ copy held, answer = .ok copy → source.content node = .ok (.element held) →
        ∀ index, ∃ begun, table.Turn source before begun after held parent copy index ∧
          table.ReplacesDefaults begun copy := by
  rcases exists_node_iff.mpr inside with ⟨original, found⟩
  have holds := content_of found
  by_cases isDocument : original.content = .document
  · have atRoot := linked.onlyTop found isDocument
    subst atRoot
    refine ⟨_, _, outcome_copyNode_root table linked,
      fun fresh outside =>
        prefixedAttributes_of_outside outside, fun copy held _ element => ?_⟩
    rw [holds, isDocument] at element
    cases element
  by_cases hosts : before.Hosts parent
  · rcases standsFor_copyNode_of_known table sourceOrderly holds
      (fun element same => known node element (same ▸ holds)) isDocument beforeLinked
      hosts way with ⟨after, outcome, changes, size, stands⟩
    refine ⟨_, _, outcome, fun fresh outside => ?_, fun copy held same element => ?_⟩
    · exact prefixedAttributes_of_newest size outside
        (stands.prefixedAttributes (changes.linked beforeLinked))
    · cases same
      rw [copyNode, Edit.bind_read_of element] at outcome
      exact exists_turn beforeLinked orderly hosts way (sourceOrderly node held element)
        (known node held element) outcome
  · rcases exists_node_iff.mpr parentInside with ⟨host, hostFound⟩
    rcases outcome_copyNode_childless table hostFound
      (fun container => hosts ⟨host, hostFound, container⟩) holds isDocument with
      ⟨left, isFresh, outcome⟩
    refine ⟨_, _, outcome, fun fresh outside => ?_, fun copy held same => ?_⟩
    · refine prefixedAttributes_of_newest (size_allocate left) outside ?_
      exact prefixedAttributes_of_isFresh (by rw [nodes_allocate, if_pos rfl]) isFresh
    · cases same

end AliasTable

namespace Run

variable {run : Run} {node parent : NodeId}

/-- No attribute that is written when a node is copied is named with a default binding.
Where one is resolved at the turn of an attribute, the search for another ends, and what
it finds can be declared and hides nothing. -/
theorem prefixed_copyNode (sourceReachable : run.source.Reachable)
    (known : run.source.AllKnown) (inside : node < run.source.size)
    (resultReachable : run.result.Reachable) (acyclic : run.result.Acyclic)
    (parentInside : parent < run.result.size) :
    ∃ answer after, run.copyNode node parent = .ok (answer, after) ∧
      (∀ fresh : Nat, run.result.size ≤ fresh → after.result.PrefixedAttributes fresh) ∧
      ∀ copy held, answer = .ok copy → run.source.content node = .ok (.element held) →
        ∀ index, ∃ begun,
          run.stylesheet.aliases.Turn run.source run.result begun after.result held
            parent copy index ∧
          run.stylesheet.aliases.ReplacesDefaults begun copy := by
  rcases acyclic parent with ⟨nodes, way⟩
  rcases AliasTable.exists_prefixed_copyNode run.stylesheet.aliases sourceReachable.linked
    sourceReachable.orderly known inside resultReachable.linked
    resultReachable.orderly way parentInside with ⟨answer, result, outcome, prefixed⟩
  exact ⟨answer, _, edit_of outcome, prefixed⟩

/-! An element in a default namespace with an attribute in the same. It is copied to where
the prefix of the attribute and the first number after it are in use. -/

def defaultInner : List Operation :=
  [.appendElement 0 "outer", .declare 1 (some "p") "urn:d", .appendElement 1 "inner",
    .declare 2 none "urn:d", .setNamespace 2 (some ⟨2, 0⟩),
    .setAttribute 2 "x" (some ⟨1, 0⟩) "1"]

def crowdedHost : List Operation :=
  [.appendElement 0 "host", .declare 1 (some "p") "urn:s", .declare 1 (some "p1") "urn:t"]

theorem prefixed_copyNode_crowdedHost :
    ∃ source result, Document.after defaultInner = some source ∧
      Document.after crowdedHost = some result ∧
      ∃ answer after, copyNode { stylesheet := {}, source, result } 2 1 =
        .ok (answer, after) ∧
        after.result.declarations 2 = .ok [⟨none, "urn:d"⟩, ⟨some "p2", "urn:d"⟩] ∧
        after.result.attributes 2 = .ok [⟨"x", some ⟨2, 1⟩, "1"⟩] ∧
        (∀ fresh : Nat, result.size ≤ fresh → after.result.PrefixedAttributes fresh) ∧
        ∀ copy held, answer = .ok copy → source.content 2 = .ok (.element held) →
          ∀ index, ∃ begun,
            AliasTable.empty.Turn source result begun after.result held 1 copy index ∧
            AliasTable.empty.ReplacesDefaults begun copy := by
  have made : ∃ source result, Document.after defaultInner = some source ∧
      Document.after crowdedHost = some result := ⟨_, _, rfl, rfl⟩
  rcases made with ⟨source, result, sourceMade, resultMade⟩
  have ready : source.AllKnown ∧ 2 < source.size ∧ result.Acyclic ∧ 1 < result.size := by
    cases sourceMade
    cases resultMade
    exact ⟨by decide, by decide, acyclic_of_climb (by decide), by decide⟩
  rcases ready with ⟨known, inside, acyclic, parentInside⟩
  rcases @prefixed_copyNode { stylesheet := {}, source, result } 2 1
    (reachable_of_after sourceMade) known inside (reachable_of_after resultMade) acyclic
    parentInside with ⟨answer, after, copied, prefixed, replaced⟩
  have shown : after.result.declarations 2 = .ok [⟨none, "urn:d"⟩, ⟨some "p2", "urn:d"⟩] ∧
      after.result.attributes 2 = .ok [⟨"x", some ⟨2, 1⟩, "1"⟩] := by
    clear prefixed replaced
    cases sourceMade
    cases resultMade
    cases copied
    exact ⟨rfl, rfl⟩
  exact ⟨source, result, sourceMade, resultMade, answer, after, copied, shown.1, shown.2,
    prefixed, replaced⟩

end Run

end ResultTree
