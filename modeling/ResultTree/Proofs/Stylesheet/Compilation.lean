import ResultTree.Stylesheet.Basic
import ResultTree.Proofs.Alias.Registration
import ResultTree.Proofs.Key.Registration

namespace ResultTree.Stylesheet

/-! Compiling from several documents. Everything that a draft is asked to do has an
answer, except that an alias may be replaced from a document that does not have the
node which declared it. -/

inductive Call
  | addDeclarations (document : Document)
  | registerAlias (document : Document) (id : NodeId)
  | registerKey (document : Document) (id : NodeId)

namespace Call

def run (draft : Draft) : Call → Reading Draft
  | .addDeclarations document => draft.addDeclarations document
  | .registerAlias document id => Prod.snd <$> draft.registerAlias document id
  | .registerKey document id => Prod.snd <$> draft.registerKey document id

def document : Call → Document
  | .addDeclarations document | .registerAlias document _ | .registerKey document _ =>
      document

def runAll (draft : Draft) (calls : List Call) : Reading Draft := calls.foldlM run draft

/-- A call is given a document that operations lead to, with handles that all denote
something, and a node of that document. -/
def Allowed : Call → Prop
  | .addDeclarations document => document.Reachable ∧ document.AllKnown
  | .registerAlias document id | .registerKey document id => Registrable document id

/-- A call on one draft comes to register the alias at a node with another. -/
inductive Reaches : Call → Draft → Draft → Document → NodeId → Prop
  | given (draft : Draft) (document : Document) (id : NodeId) :
      Reaches (.registerAlias document id) draft draft document id
  | child {draft reached : Draft} {document : Document} {top id : NodeId}
      {before after : List NodeId} (stylesheet : (element document).run = .ok (.ok top))
      (children : document.children top = .ok (before ++ id :: after))
      (passed : before.foldlM (Draft.addDeclaration document) draft = .ok reached)
      (kind : DeclarationKind.of? document id = .ok (some .alias)) :
      Reaches (.addDeclarations document) draft reached document id

end Call

/-! ## One declaration -/

variable {document : Document} {draft : Draft} {id : NodeId} {fault : Fault}

theorem Draft.registerAlias_eq_error_iff (registrable : Registrable document id) :
    draft.registerAlias document id = .error fault ∧ fault ≠ .endlessWalk ↔
      draft.aliases.Dangles document id fault := by
  rw [← AliasTable.register_eq_error_iff registrable, registerAlias,
    Reading.bind_eq_error_iff]
  simp

theorem Draft.harmless_registerKey (registrable : Registrable document id) :
    Reading.Harmless (draft.registerKey document id) :=
  (Key.Definitions.faultsOnly_register registrable.reachable.linked registrable.known
    registrable.inside (Document.searchable_of_inside registrable.inside) _).bind
    fun _ _ => .ok _

theorem DeclarationKind.exists_of? (registrable : Registrable document id) :
    ∃ kind, of? document id = .ok kind := by
  rcases registrable.known.exists_namespaceUri? registrable.inside with ⟨uri, uriKnown⟩
  rcases Document.exists_node_iff.mpr registrable.inside with ⟨node, found⟩
  simp only [of?, uriKnown, Document.localName?_of found, Reading.ok_bind]
  split
  · split <;> exact ⟨_, rfl⟩
  · exact ⟨_, rfl⟩

theorem Draft.addDeclaration_eq_error_iff (registrable : Registrable document id) :
    draft.addDeclaration document id = .error fault ∧ fault ≠ .endlessWalk ↔
      DeclarationKind.of? document id = .ok (some .alias) ∧
        draft.aliases.Dangles document id fault := by
  rcases DeclarationKind.exists_of? registrable with ⟨kind, known⟩
  rw [addDeclaration, known, Reading.ok_bind]
  match kind with
  | some .alias =>
      rw [← registerAlias_eq_error_iff registrable, Reading.bind_eq_error_iff]
      simp
  | some .key =>
      simp only [Reading.bind_eq_error_iff, Reading.pure_eq_ok, reduceCtorEq, and_false,
        exists_false, or_false, Except.ok.injEq, Option.some.injEq, false_and, iff_false,
        not_and, not_not]
      exact harmless_registerKey registrable fault
  | none => simp

/-! ## All declarations of a document -/

theorem inside_of_mem_children (linked : document.Linked) {top child : NodeId}
    {children : List NodeId} (listed : document.children top = .ok children)
    (member : child ∈ children) : child < document.size := by
  rcases Reading.map_eq_ok_iff.mp listed with ⟨node, found, rfl⟩
  apply @Document.Linked.childInside _ linked top child
  rwa [Document.childLinks_of (Document.node_eq_ok_iff.mp found)]

theorem inside_of_documentElement? (linked : document.Linked) {top : NodeId}
    (searched : document.documentElement? = .ok (some top)) : top < document.size := by
  rw [Document.documentElement?, Document.children_eq_childLinks linked.rootInside,
    Reading.ok_bind] at searched
  exact linked.childInside (Reading.mem_of_findM? searched)

structure StylesheetElement (document : Document) (top : NodeId) : Prop where
  first : document.documentElement? = .ok (some top)
  inNamespace : document.namespaceUri? top = .ok (some transformUri)
  named : document.localName? top = .ok (some "stylesheet") ∨
    document.localName? top = .ok (some "transform")

theorem run_element_cases {result : Except Diagnostic NodeId}
    (told : (element document).run = .ok result) :
    (∃ top, StylesheetElement document top ∧ result = .ok top) ∨
      (∀ top, ¬ StylesheetElement document top) ∧
        ∃ node line found, result = .error (.notAStylesheet node line found) := by
  rw [element, Attempt.run_read_bind] at told
  rcases Reading.bind_eq_ok_iff.mp told with ⟨top?, searched, told⟩
  cases top? with
  | none =>
      cases told
      refine .inr ⟨fun top stylesheet => ?_, _, _, _, rfl⟩
      cases searched.symm.trans stylesheet.first
  | some top =>
      simp only [Attempt.run_read_bind] at told
      rcases Reading.bind_eq_ok_iff.mp told with ⟨uri, uriKnown, told⟩
      rcases Reading.bind_eq_ok_iff.mp told with ⟨name?, nameKnown, told⟩
      split at told
      · next isStylesheet =>
          cases told
          refine .inl ⟨top, ⟨searched, isStylesheet.1 ▸ uriKnown, ?_⟩, rfl⟩
          cases name? with
          | none => simp at isStylesheet
          | some name => simpa [nameKnown] using isStylesheet.2
      · next isOther =>
          rw [Attempt.run_read_bind] at told
          rcases Reading.bind_eq_ok_iff.mp told with ⟨line, _, told⟩
          cases told
          refine .inr ⟨fun other stylesheet => isOther ?_, _, _, _, rfl⟩
          cases searched.symm.trans stylesheet.first
          cases uriKnown.symm.trans stylesheet.inNamespace
          rcases stylesheet.named with named | named <;>
            cases nameKnown.symm.trans named <;> simp

theorem run_element_of {top : NodeId} (stylesheet : StylesheetElement document top)
    {result : Except Diagnostic NodeId} (told : (element document).run = .ok result) :
    result = .ok top := by
  rcases run_element_cases told with ⟨other, otherStylesheet, rfl⟩ | ⟨none, _⟩
  · cases otherStylesheet.first.symm.trans stylesheet.first
    rfl
  · exact absurd stylesheet (none top)

theorem inside_of_element (linked : document.Linked) {top : NodeId}
    (stylesheet : (element document).run = .ok (.ok top)) : top < document.size := by
  rcases run_element_cases stylesheet with
    ⟨first, isStylesheet, same⟩ | ⟨_, _, _, _, same⟩
  · cases same
    exact inside_of_documentElement? linked isStylesheet.first
  · cases same

theorem exists_element (linked : document.Linked) (known : document.AllKnown) :
    ∃ result, (element document).run = .ok result := by
  have searched : ∃ top?, document.documentElement? = .ok top? := by
    rw [Document.documentElement?, Document.children_eq_childLinks linked.rootInside,
      Reading.ok_bind]
    apply Reading.FaultsOnly.exists_answer
    refine .findM? fun child member => ?_
    rcases Document.exists_node_iff.mpr (linked.childInside member) with ⟨node, found⟩
    exact .of_eq_ok (Document.isElement_of found)
  rcases searched with ⟨top?, searched⟩
  cases top? with
  | none => exact ⟨_, by rw [element, Attempt.run_read_bind, searched]; rfl⟩
  | some top =>
      have inside := inside_of_documentElement? linked searched
      rcases known.exists_namespaceUri? inside with ⟨uri, uriKnown⟩
      rcases Document.exists_node_iff.mpr inside with ⟨node, found⟩
      simp only [element, Attempt.run_read_bind, searched, uriKnown,
        Document.localName?_of found, Document.line_of found, Reading.ok_bind]
      split <;> exact ⟨_, rfl⟩

theorem Draft.addDeclarations_eq_error_iff (reachable : document.Reachable)
    (known : document.AllKnown) :
    draft.addDeclarations document = .error fault ∧ fault ≠ .endlessWalk ↔
      ∃ reached id, (Call.addDeclarations document).Reaches draft reached document id ∧
        reached.aliases.Dangles document id fault := by
  have linked := reachable.linked
  have harmless : Reading.Harmless (element document).run := by
    rcases exists_element linked known with ⟨result, told⟩
    exact .of_eq_ok told
  have registrable {top id : NodeId} {before after : List NodeId}
      (children : document.children top = .ok (before ++ id :: after)) :
      Registrable document id := by
    exact ⟨reachable, known, inside_of_mem_children linked children (by simp)⟩
  constructor
  · rintro ⟨failed, notEndless⟩
    rcases Reading.bind_eq_error_iff.mp failed with failed | ⟨result, stylesheet, failed⟩
    · exact absurd (harmless fault failed) notEndless
    · cases result with
      | error diagnostic => cases failed
      | ok top =>
          have inside := inside_of_element linked stylesheet
          have listed := Document.children_eq_childLinks inside
          simp only [listed, Reading.ok_bind] at failed
          rcases Reading.foldlM_eq_error_iff.mp failed with
            ⟨before, id, after, reached, same, passed, failed⟩
          rw [same] at listed
          rcases (addDeclaration_eq_error_iff (registrable listed)).mp
            ⟨failed, notEndless⟩ with
            ⟨kind, dangles⟩
          exact ⟨reached, id, .child stylesheet listed passed kind, dangles⟩
  · rintro ⟨reached, id, reaches, dangles⟩
    cases reaches with
    | child stylesheet children passed kind =>
        refine ⟨?_, dangles.ne_endlessWalk⟩
        simp only [addDeclarations, stylesheet, children, Reading.ok_bind]
        have failed := ((addDeclaration_eq_error_iff (registrable children)).mpr
          ⟨kind, dangles⟩).1
        exact Reading.foldlM_eq_error_iff.mpr ⟨_, _, _, _, rfl, passed, failed⟩

/-! ## Calls in turn -/

theorem Call.run_eq_error_iff {call : Call} (allowed : call.Allowed) :
    call.run draft = .error fault ∧ fault ≠ .endlessWalk ↔
      ∃ reached document id, call.Reaches draft reached document id ∧
        reached.aliases.Dangles document id fault := by
  cases call with
  | addDeclarations document =>
      rw [run, Draft.addDeclarations_eq_error_iff allowed.1 allowed.2]
      constructor
      · rintro ⟨reached, id, reaches, dangles⟩
        exact ⟨reached, document, id, reaches, dangles⟩
      · rintro ⟨reached, other, id, reaches, dangles⟩
        cases reaches with
        | child stylesheet children passed kind =>
            exact ⟨reached, id, .child stylesheet children passed kind, dangles⟩
  | registerAlias document id =>
      rw [run, Reading.map_eq_error_iff, Draft.registerAlias_eq_error_iff allowed]
      constructor
      · exact fun dangles => ⟨draft, document, id, .given draft document id, dangles⟩
      · rintro ⟨reached, other, otherId, reaches, dangles⟩
        cases reaches with
        | given => exact dangles
  | registerKey document id =>
      rw [run, Reading.map_eq_error_iff]
      constructor
      · rintro ⟨failed, notEndless⟩
        exact absurd (Draft.harmless_registerKey allowed fault failed) notEndless
      · rintro ⟨_, _, _, reaches, _⟩
        cases reaches

/-- Calls end in a fault that is no endless walk exactly where one of them comes to an
alias that replaces another, which was declared by a node that its document does
not have. The fault is that node. The same holds of a table that aliases are
registered with in turn. -/
theorem faults_iff_dangles {draft : Draft} {calls : List Call} {table : AliasTable}
    {declared : List (Document × NodeId)} {fault : Fault} :
    ((∀ call ∈ calls, call.Allowed) →
      (Call.runAll draft calls = .error fault ∧ fault ≠ .endlessWalk ↔
        ∃ before call after present reached document id, calls = before ++ call :: after ∧
          Call.runAll draft before = .ok present ∧
          call.Reaches present reached document id ∧
          reached.aliases.Dangles document id fault)) ∧
    ((∀ declaration ∈ declared, Registrable declaration.1 declaration.2) →
      (table.takeAll declared = .error fault ∧ fault ≠ .endlessWalk ↔
        ∃ before document node after reached,
          declared = before ++ (document, node) :: after ∧
          table.takeAll before = .ok reached ∧ reached.Dangles document node fault)) := by
  refine ⟨?_, AliasTable.takeAll_eq_error_iff⟩
  intro allowed
  rw [Call.runAll, Reading.foldlM_eq_error_iff]
  constructor
  · rintro ⟨⟨before, call, after, present, same, passed, failed⟩, notEndless⟩
    have here := allowed call (by simp [same])
    rcases (Call.run_eq_error_iff here).mp ⟨failed, notEndless⟩ with
      ⟨reached, document, id, reaches, dangles⟩
    exact ⟨before, call, after, present, reached, document, id, same, passed, reaches,
      dangles⟩
  · rintro ⟨before, call, after, present, reached, document, id, same, passed, reaches,
      dangles⟩
    have here := allowed call (by simp [same])
    rcases (Call.run_eq_error_iff here).mpr ⟨reached, document, id, reaches, dangles⟩ with
      ⟨failed, notEndless⟩
    exact ⟨⟨before, call, after, present, same, passed, failed⟩, notEndless⟩

def declaredAlias (node : NodeId) (uri : String) : List Operation :=
  [.newElement "namespace-alias", .declare node (some "p") uri,
    .setAttribute node "stylesheet-prefix" none "xml",
    .setAttribute node "result-prefix" none "p"]

theorem allowed_of_declaredAlias {wide narrow : Document}
    (wideMade :
      Document.after (.newElement "other" :: declaredAlias 2 "urn:a") = some wide)
    (narrowMade : Document.after (declaredAlias 1 "urn:b") = some narrow) :
    Registrable wide 2 ∧ Registrable narrow 1 := by
  have wideReachable := Document.reachable_of_after wideMade
  have narrowReachable := Document.reachable_of_after narrowMade
  cases wideMade
  cases narrowMade
  exact ⟨⟨wideReachable, by decide, by decide⟩, ⟨narrowReachable, by decide, by decide⟩⟩

theorem faults_iff_dangles_foreign :
    ∃ wide narrow, Document.after (.newElement "other" :: declaredAlias 2 "urn:a") =
      some wide ∧
      Document.after (declaredAlias 1 "urn:b") = some narrow ∧
      (∃ before call after present reached document id,
        [Call.registerAlias wide 2, .registerAlias narrow 1] = before ++ call :: after ∧
          Call.runAll {} before = .ok present ∧ call.Reaches present reached document id ∧
          reached.aliases.Dangles document id (.noSuchNode 2)) ∧
      ∃ before document node after reached,
        [(wide, 2), (narrow, 1)] = before ++ (document, node) :: after ∧
          AliasTable.empty.takeAll before = .ok reached ∧
          reached.Dangles document node (.noSuchNode 2) := by
  refine ⟨_, _, rfl, rfl, ?calls, ?table⟩
  case calls =>
    refine ((@faults_iff_dangles _ _ .empty [] _).1 ?_).mp ⟨rfl, by simp⟩
    have allowed := allowed_of_declaredAlias rfl rfl
    simp only [List.mem_cons, List.not_mem_nil, or_false]
    rintro call (rfl | rfl)
    · exact allowed.1
    · exact allowed.2
  case table =>
    refine ((@faults_iff_dangles {} [] _ _ _).2 ?_).mp ⟨rfl, by simp⟩
    have allowed := allowed_of_declaredAlias rfl rfl
    simp only [List.mem_cons, List.not_mem_nil, or_false]
    rintro declaration (rfl | rfl)
    · exact allowed.1
    · exact allowed.2

/-- Two declarations of one alias, each in its own document, end the compilation with a
fault. -/
theorem faults_of_declaredAlias :
    ∃ wide narrow, Document.after (.newElement "other" :: declaredAlias 2 "urn:a") =
      some wide ∧
      Document.after (declaredAlias 1 "urn:b") = some narrow ∧
      (∀ call ∈ [Call.registerAlias wide 2, .registerAlias narrow 1], call.Allowed) ∧
      Call.runAll {} [.registerAlias wide 2, .registerAlias narrow 1] =
        .error (.noSuchNode 2) := by
  refine ⟨_, _, rfl, rfl, ?_, rfl⟩
  have allowed := allowed_of_declaredAlias rfl rfl
  simp only [List.mem_cons, List.not_mem_nil, or_false]
  rintro call (rfl | rfl)
  · exact allowed.1
  · exact allowed.2

/-! ## What becomes of the aliases

A call registers aliases that its document declares, one after the other, and changes
the aliases in no other way. -/

theorem Draft.take_of_registerAlias {changed : Draft} {accepted : Bool}
    (registered : draft.registerAlias document id = .ok (accepted, changed)) :
    draft.aliases.take document id = .ok changed.aliases := by
  rcases Reading.bind_eq_ok_iff.mp registered with ⟨registration, answered, same⟩
  cases same
  rw [AliasTable.take, answered]
  rfl

theorem Draft.aliases_of_registerKey {changed : Draft} {accepted : Bool}
    (registered : draft.registerKey document id = .ok (accepted, changed)) :
    changed.aliases = draft.aliases := by
  rcases Reading.bind_eq_ok_iff.mp registered with ⟨registration, answered, same⟩
  cases same
  rfl

section

variable {property : AliasTable → Prop}

theorem Draft.holds_aliases_of_addDeclaration {changed : Draft}
    (kept : ∀ {table reached : AliasTable} {id : NodeId}, property table →
      table.take document id = .ok reached → property reached)
    (holds : property draft.aliases)
    (added : draft.addDeclaration document id = .ok changed) :
    property changed.aliases := by
  rcases Reading.bind_eq_ok_iff.mp added with ⟨kind, _, added⟩
  match kind with
  | some .alias =>
      rcases Reading.bind_eq_ok_iff.mp added with ⟨⟨accepted, left⟩, registered, same⟩
      cases same
      exact kept holds (take_of_registerAlias registered)
  | some .key =>
      rcases Reading.bind_eq_ok_iff.mp added with ⟨⟨accepted, left⟩, registered, same⟩
      cases same
      rwa [aliases_of_registerKey registered]
  | none =>
      cases added
      exact holds

theorem Draft.holds_aliases_of_foldlM {changed : Draft} {ids : List NodeId}
    (kept : ∀ {table reached : AliasTable} {id : NodeId}, property table →
      table.take document id = .ok reached → property reached)
    (holds : property draft.aliases)
    (added : ids.foldlM (addDeclaration document) draft = .ok changed) :
    property changed.aliases :=
  Reading.holds_of_foldlM (fun draft : Draft => property draft.aliases)
    (fun _ _ _ _ holds added => holds_aliases_of_addDeclaration kept holds added)
    holds added

theorem Call.holds_aliases_of_run {call : Call} {changed : Draft}
    (kept : ∀ {table reached : AliasTable} {id : NodeId}, property table →
      table.take call.document id = .ok reached → property reached)
    (holds : property draft.aliases) (made : call.run draft = .ok changed) :
    property changed.aliases := by
  cases call with
  | addDeclarations document =>
      rcases Reading.bind_eq_ok_iff.mp made with ⟨result, _, made⟩
      cases result with
      | error diagnostic =>
          cases made
          exact holds
      | ok top =>
          rcases Reading.bind_eq_ok_iff.mp made with ⟨children, _, added⟩
          exact Draft.holds_aliases_of_foldlM kept holds added
  | registerAlias document id =>
      rcases Reading.map_eq_ok_iff.mp made with ⟨⟨accepted, left⟩, registered, same⟩
      cases same
      exact kept holds (Draft.take_of_registerAlias registered)
  | registerKey document id =>
      rcases Reading.map_eq_ok_iff.mp made with ⟨⟨accepted, left⟩, registered, same⟩
      cases same
      rwa [Draft.aliases_of_registerKey registered]

end

/-! ## Documents that do not get smaller -/

theorem Call.harmless_run {call : Call} (allowed : call.Allowed)
    (within : draft.aliases.Within call.document.size) :
    Reading.Harmless (call.run draft) := by
  intro fault failed
  by_contra notEndless
  rcases (run_eq_error_iff allowed).mp ⟨failed, notEndless⟩ with
    ⟨reached, document, id, reaches, dangles⟩
  cases reaches with
  | given => exact within.not_dangles dangles
  | child stylesheet children passed kind =>
      have reachedWithin :=
        Draft.holds_aliases_of_foldlM AliasTable.Within.take within passed
      exact reachedWithin.not_dangles dangles

theorem harmless_runAll_of_growing {calls : List Call}
    (allowed : ∀ call ∈ calls, call.Allowed)
    (growing : calls.Pairwise fun earlier later =>
      earlier.document.size ≤ later.document.size)
    (within : ∀ call ∈ calls, draft.aliases.Within call.document.size) :
    Reading.Harmless (Call.runAll draft calls) := by
  induction calls generalizing draft with
  | nil => exact .ok draft
  | cons first rest induction =>
      rcases List.pairwise_cons.mp growing with ⟨fromFirst, growing⟩
      have firstAllowed := allowed first (by simp)
      have firstWithin := within first (by simp)
      apply (Call.harmless_run firstAllowed firstWithin).bind
      intro next made
      refine induction (fun call member => allowed call (List.mem_cons_of_mem _ member))
        growing ?_
      intro call member
      have nextWithin := Call.holds_aliases_of_run AliasTable.Within.take firstWithin made
      exact nextWithin.mono (fromFirst call member)

/-! ## One document

The way up from a child of the stylesheet element ends, so nothing is left for the
compilation of a document to fault with. -/

theorem Draft.exists_addDeclaration (draft : Draft) (reachable : document.Reachable)
    (known : document.AllKnown) (attached : document.Attached id)
    (within : draft.aliases.Within document.size) :
    ∃ changed, draft.addDeclaration document id = .ok changed ∧
      changed.aliases.Within document.size := by
  have linked := reachable.linked
  have inside := attached.inside linked
  have registrable : Registrable document id := ⟨reachable, known, inside⟩
  obtain ⟨above, way⟩ := attached.exists_way linked
  have searchable : document.Searchable (fun _ => False) id :=
    way.searchable linked inside
  obtain ⟨kind, kindKnown⟩ := DeclarationKind.exists_of? registrable
  have faultless :
      Reading.FaultsOnly (fun _ => False) (draft.addDeclaration document id) := by
    rw [addDeclaration, kindKnown, Reading.ok_bind]
    match kind with
    | some .alias =>
        refine Reading.FaultsOnly.bind ?_ fun _ _ => .ok _
        exact (within.faultsOnly_register registrable searchable).bind fun _ _ => .ok _
    | some .key =>
        refine Reading.FaultsOnly.bind ?_ fun _ _ => .ok _
        exact (Key.Definitions.faultsOnly_register linked known inside searchable _).bind
          fun _ _ => .ok _
    | none => exact .ok _
  obtain ⟨changed, added⟩ := faultless.exists_answer
  exact ⟨changed, added,
    holds_aliases_of_addDeclaration AliasTable.Within.take within added⟩

theorem StylesheetElement.exists_children (linked : document.Linked) {top : NodeId}
    (stylesheet : StylesheetElement document top) :
    ∃ children, document.children top = .ok children ∧
      ∀ child ∈ children, document.Attached child := by
  have inside := inside_of_documentElement? linked stylesheet.first
  refine ⟨_, Document.children_eq_childLinks inside, fun child member => ?_⟩
  have searched := stylesheet.first
  rw [Document.documentElement?, Document.children_eq_childLinks linked.rootInside,
    Reading.ok_bind] at searched
  exact (Document.attached_root.child linked (Reading.mem_of_findM? searched)).child
    linked member

theorem Draft.exists_addDeclarations (draft : Draft) (reachable : document.Reachable)
    (known : document.AllKnown) (within : draft.aliases.Within document.size) :
    ∃ changed, draft.addDeclarations document = .ok changed := by
  obtain ⟨result, told⟩ := exists_element reachable.linked known
  rw [addDeclarations, told, Reading.ok_bind]
  rcases run_element_cases told with ⟨top, stylesheet, rfl⟩ | ⟨_, node, line, found, rfl⟩
  · obtain ⟨children, listed, attached⟩ := stylesheet.exists_children reachable.linked
    simp only [listed, Reading.ok_bind]
    have each (draft : Draft) (within : draft.aliases.Within document.size)
        (child : NodeId) (member : child ∈ children) : ∃ changed,
          draft.addDeclaration document child = .ok changed ∧
          changed.aliases.Within document.size :=
      exists_addDeclaration draft reachable known (attached child member) within
    obtain ⟨changed, added, _⟩ := Reading.exists_foldlM each within
    exact ⟨changed, added⟩
  · exact ⟨_, rfl⟩

end ResultTree.Stylesheet
