import ResultTree.Proofs.Document.Loops
import ResultTree.Proofs.Transform.Correspondence

namespace ResultTree

/-! The namespace of a copied element. What its URI comes to by the aliases is found in
scope or declared on the copy, and the declaration is not refused: a copy that has the
prefix already has it from the original, which then declares the very binding. Only
`xml` cannot be declared. -/

theorem Document.WellNamed.inScope {source : Document} {original : NodeId}
    {nodes : List NodeId} {held : Element} (named : source.WellNamed)
    (linked : source.Linked) (orderly : source.AllOrderly)
    (attached : source.Attached original)
    (holds : source.content original = .ok (.element held))
    (way : source.Way original (original :: nodes)) :
    (Site.scope ⟨original, nodes.flatMap source.declared⟩ held.declarations).Coherent ∧
      source.NamedIn
        (Site.scope ⟨original, nodes.flatMap source.declared⟩ held.declarations)
        held := by
  rw [← scopeAlong_eq_scope holds]
  exact ⟨coherent_scopeAlong linked orderly _,
    (named _ held attached holds).inScope linked way (attached.inside linked)⟩

theorem Document.Consistent.inScope {source : Document} {original : NodeId}
    {nodes : List NodeId} {held : Element} (consistent : source.Consistent)
    (linked : source.Linked) (attached : source.Attached original)
    (holds : source.content original = .ok (.element held))
    (way : source.Way original (original :: nodes)) :
    source.ConsistentIn
      (Site.scope ⟨original, nodes.flatMap source.declared⟩ held.declarations)
      held := by
  rw [← scopeAlong_eq_scope holds]
  exact (consistent _ held attached holds).inScope linked way (attached.inside linked)

namespace AliasTable

open Document

/-- The own namespace of an element gets lost. It is that of `xml`, which is aliased to
a URI that no binding in scope at the copy has when the copy gets its name: at that time
it has the declarations of the original and no others. -/
def Strands (table : AliasTable) (after : Document) (held : Element) (copy : NodeId) :
    Prop :=
  held.ns = some xmlHandle ∧ ∃ uri, table.get? xmlUri = some uri ∧
    (after.putElement copy
        { name := held.name, declarations := table.cloned held.declarations }).findUri
        copy uri =
      .ok none

variable {table : AliasTable} {source after : Document} {site outside : Site}
  {bindings changed : List Binding} {handle : Handle} {wanted : Binding}
  {answer : Option Declaration} {held : Element} {written : Written}
  {original copy : NodeId}

/-! ## One name -/

theorem declarable_restate (tidy : Tidy bindings)
    (coherent : (outside.scope bindings).Coherent)
    (tells : source.Tells (outside.scope bindings) handle wanted)
    (notXml : handle ≠ xmlHandle)
    (missing :
      (site.scope (table.cloned bindings)).taken? (table.target wanted.uri) = none) :
    Declarable (table.cloned bindings) (table.restate wanted) where
  notReserved := by
    exact tells.not_reserved coherent fun isXml => notXml (tells.eq_xml isXml).1
  unused := by
    intro declared member same
    rcases List.mem_map.mp member with ⟨own, ownMember, rfl⟩
    -- The original declares the prefix, and so the binding that its name denotes.
    have ownDeclared := (List.mem_filter.mp ownMember).1
    rw [← @Site.map_binding_declared outside bindings] at ownDeclared
    rcases List.mem_map.mp ownDeclared with ⟨declaration, declarationMember, rfl⟩
    have denoted := Site.denoted_scope_of_mem tidy declarationMember
    rw [show declaration.binding.nsPrefix = wanted.nsPrefix from same, tells.denoted]
      at denoted
    cases denoted
    -- The copy declares it as well, under the URI that nothing was found for.
    exact Site.uri_ne_of_missing (tidy.cloned table) missing member rfl

def StrandsAt (table : AliasTable) (site : Site) (held : Element) : Prop :=
  held.ns = some xmlHandle ∧
    (site.scope (table.cloned held.declarations)).taken? (table.target xmlUri) = none

theorem Resolves.renames (linked : source.Linked) (tidy : Tidy held.declarations)
    (coherent : (outside.scope held.declarations).Coherent) (own : held.ns = some handle)
    (tells : source.Tells (outside.scope held.declarations) handle wanted)
    (resolved :
      table.Resolves site (table.cloned held.declarations) none wanted answer changed) :
    (table.StrandsAt site held → answer = none) ∧
      (¬ table.StrandsAt site held →
        answer.map (·.binding.uri) = some (table.target wanted.uri)) := by
  have isXml (strands : table.StrandsAt site held) : wanted = Binding.xml := by
    cases own.symm.trans strands.1
    exact Except.ok.inj (tells.known.symm.trans linked.binding_xml)
  cases resolved with
  | empty nothing => exact absurd nothing tells.something
  | own _ absurdity _ => cases absurdity
  | taken _ taken =>
      refine ⟨fun strands => ?_, fun _ => congrArg some (Scope.uri_of_taken taken)⟩
      rw [isXml strands] at taken
      cases taken.symm.trans strands.2
  | missing _ missing declares =>
      cases declares with
      | declared declarable =>
          refine ⟨fun strands => ?_, fun _ => rfl⟩
          rw [isXml strands] at declarable
          exact absurd rfl (declarable.notReserved "xml" (by decide))
      | refused undeclarable =>
          refine ⟨fun _ => rfl, fun stays => absurd ?_ undeclarable⟩
          refine declarable_restate tidy coherent tells
            (fun same => stays ⟨own.trans ?_, ?_⟩) missing
          · rw [same]
          · subst same
            cases tells.known.symm.trans linked.binding_xml
            exact missing

theorem Copies.renames (linked : source.Linked) (tidy : Tidy held.declarations)
    (coherent : (outside.scope held.declarations).Coherent)
    (inScope : source.NamedIn (outside.scope held.declarations) held)
    (copies : table.Copies source site held written) :
    ∃ uri, source.uri? held.ns = .ok uri ∧
      (table.StrandsAt site held → written.own = none) ∧
      (¬ table.StrandsAt site held →
        written.own.map (·.binding.uri) = uri.map table.target) := by
  cases copies with
  | @copy own declarations _ named writes =>
      rw [writes.own_eq]
      cases ns : held.ns with
      | none =>
          rw [ns] at named
          cases named
          exact ⟨none, rfl, fun _ => rfl, fun _ => rfl⟩
      | some handle =>
          rw [ns] at named
          rcases inScope.own handle ns with ⟨wanted, tells⟩
          cases named with
          | found known resolved =>
              cases known.symm.trans tells.known
              exact ⟨_, uri?_some_of known,
                resolved.renames linked tidy coherent ns tells⟩

/-! ## The copies of a tree -/

theorem strands_iff (linked : after.Linked) {nodes : List NodeId} {element : Element}
    (way : after.Way copy (copy :: nodes))
    (copyHeld : after.content copy = .ok (.element element)) (held : Element) :
    table.Strands after held copy ↔
      table.StrandsAt ⟨copy, nodes.flatMap after.declared⟩ held := by
  have found (uri : String) := (way.ready linked copyHeld held.name).page_findUri
    { declarations := table.cloned held.declarations } uri
  simp only [Site.page, putElement_putElement] at found
  simp only [Strands, StrandsAt]
  rw [show
    ({ name := held.name, declarations := table.cloned held.declarations } : Element) =
      Written.element { declarations := table.cloned held.declarations } held.name
    from rfl]
  simp only [found, Except.ok.injEq, Option.map_eq_none_iff]
  refine and_congr_right fun _ => ⟨?_, fun missing => ?_⟩
  · rintro ⟨uri, aliased, missing⟩
    rwa [target, aliased, Option.getD_some]
  · cases aliased : table.get? xmlUri with
    | some uri =>
        rw [target, aliased, Option.getD_some] at missing
        exact ⟨uri, rfl, missing⟩
    | none =>
        rw [target, aliased, Option.getD_none, Scope.taken?, if_pos rfl] at missing
        cases missing

theorem StandsFor.renames (stands : table.StandsFor source after original copy)
    (linked : source.Linked) (orderly : source.AllOrderly) (named : source.WellNamed)
    (attached : source.Attached original) (afterLinked : after.Linked)
    (holds : source.content original = .ok (.element held)) :
    ∃ uri, source.namespaceUri? original = .ok uri ∧
      (table.Strands after held copy → after.namespaceUri? copy = .ok none) ∧
      (¬ table.Strands after held copy →
        after.namespaceUri? copy = .ok (uri.map table.target)) := by
  rcases stands.element holds with ⟨written, _, way, copyHeld, admits, copies⟩
  rcases attached.exists_way linked with ⟨nodes, sourceWay⟩
  rcases named.inScope linked orderly attached holds sourceWay with ⟨coherent, inScope⟩
  have ownUri : after.uri? (written.own.map Declaration.handle) =
      .ok (written.own.map (·.binding.uri)) :=
    Site.uri?_of_places afterLinked copyHeld fun _ => admits.own
  rcases copies.renames linked (orderly _ _ holds).tidy coherent inScope with
    ⟨uri, known, stranded, renamed⟩
  rw [strands_iff afterLinked way copyHeld, namespaceUri?_of_element holds,
    namespaceUri?_of_element copyHeld, show (written.element held.name).ns =
      written.own.map Declaration.handle from rfl, ownUri]
  exact ⟨uri, known, fun strands => by rw [stranded strands]; rfl,
    fun stays => congrArg Except.ok (renamed stays)⟩

end AliasTable

namespace Run

open Document

variable {run : Run} {node parent : NodeId}

/-- Copying a node with all that is below it takes the namespace of every element through
the aliases once. -/
theorem namespaceUri?_copyTree (sourceReachable : run.source.Reachable)
    (consistent : run.source.Consistent) (attached : run.source.Attached node)
    (resultReachable : run.result.Reachable) (acyclic : run.result.Acyclic)
    (hosts : run.result.Hosts parent) :
    ∃ answer after, run.copyTree node parent = .ok (.ok answer, after) ∧
      (∀ original, run.source.Passes original node →
        ∃ copy, run.source.IsCopy run.result after.result node answer original copy) ∧
      ∀ original copy held,
        run.source.IsCopy run.result after.result node answer original copy →
        run.source.content original = .ok (.element held) →
        ∃ uri, run.source.namespaceUri? original = .ok uri ∧
          (run.stylesheet.aliases.Strands after.result held copy →
            after.result.namespaceUri? copy = .ok none) ∧
          (¬ run.stylesheet.aliases.Strands after.result held copy →
            after.result.namespaceUri? copy =
              .ok (uri.map run.stylesheet.aliases.target)) := by
  have linked := sourceReachable.linked
  have orderly := sourceReachable.orderly
  have resultLinked := resultReachable.linked
  rcases acyclic parent with ⟨nodes, way⟩
  rcases AliasTable.grafts_copyTree run.stylesheet.aliases linked orderly consistent
    attached resultLinked hosts way with ⟨result, outcome, graft⟩
  refine ⟨_, _, edit_of outcome,
    fun original passes => graft.exists_isCopy linked attached hosts.inside passes, ?_⟩
  intro original copy held isCopy holds
  exact (graft.standsFor linked attached hosts.inside isCopy holds).renames linked orderly
    consistent.wellNamed (AliasTable.attached_of_isCopy linked attached isCopy)
    (graft.changes.linked resultLinked) holds

/-! An element in an aliased namespace with a child that has the name of `xml`, which is
aliased too. The child of the second kind loses its namespace. -/

def xmlNamed : List Operation :=
  [.appendElement 0 "outer", .declare 1 (some "a") "urn:a", .setNamespace 1 (some ⟨1, 0⟩),
    .appendElement 1 "inner", .setNamespace 2 (some ⟨0, 0⟩)]

def xmlAliased : AliasTable :=
  (AliasTable.empty.declare "urn:a" ⟨"urn:b", 1⟩).declare xmlUri ⟨"urn:c", 2⟩

theorem namespaceUri?_copyTree_xmlNamed :
    ∃ source, Document.after xmlNamed = some source ∧
      ∃ answer after, copyTree { stylesheet := { aliases := xmlAliased }, source } 1 0 =
          .ok (.ok answer, after) ∧
        ∀ original copy held, source.IsCopy .empty after.result 1 answer original copy →
          source.content original = .ok (.element held) →
          ∃ uri, source.namespaceUri? original = .ok uri ∧
            (xmlAliased.Strands after.result held copy →
              after.result.namespaceUri? copy = .ok none) ∧
            (¬ xmlAliased.Strands after.result held copy →
              after.result.namespaceUri? copy = .ok (uri.map xmlAliased.target)) := by
  have made : ∃ source, Document.after xmlNamed = some source ∧ source.Consistent ∧
      source.Attached 1 :=
    ⟨_, rfl, consistent_of_all (by decide), .single rfl⟩
  rcases made with ⟨source, made, consistent, attached⟩
  have empty : Document.empty.Reachable := ⟨[], .start⟩
  rcases @namespaceUri?_copyTree { stylesheet := { aliases := xmlAliased }, source } 1 0
    (reachable_of_after made) consistent attached empty acyclic_empty
    ⟨_, rfl, trivial⟩ with
    ⟨answer, after, copied, _, renamed⟩
  exact ⟨source, made, answer, after, copied, renamed⟩

end Run

end ResultTree
