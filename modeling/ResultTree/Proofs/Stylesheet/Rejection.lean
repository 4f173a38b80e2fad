import Mathlib.Combinatorics.Enumerative.DoubleCounting
import ResultTree.Key.Session
import ResultTree.Proofs.Stylesheet.Statement

namespace ResultTree.Stylesheet

/-! What a document is rejected for, as a whole or for some of its declarations. An
error names the node that it is about, but not the document of the node. So errors
about different places of one document never say the same, while errors about two
documents may, and then a queue that drops duplicates keeps one of them. -/

inductive Site
  | document
  | declaration (id : NodeId)
deriving DecidableEq, Repr

/-- What is rejected of a document: the whole, or a declaration in it. -/
inductive Rejects (document : Document) : Site → Prop
  | document (other : ∀ top, ¬ StylesheetElement document top) :
      Rejects document .document
  | declaration {top id : NodeId} {children : List NodeId}
      (stylesheet : StylesheetElement document top)
      (listed : document.children top = .ok children) (member : id ∈ children)
      (malformed : Malformed document id) : Rejects document (.declaration id)

def Site.Blamed (diagnostic : Diagnostic) : Site → Prop
  | .document => diagnostic.code = .notAStylesheet
  | .declaration id => diagnostic.Blames id

def declarationErrors (document : Document) (id : NodeId) :
    Reading (List (Site × Diagnostic)) := do
  return (← Statement.read document id).errors.map (.declaration id, ·)

def documentErrors (document : Document) : Reading (List (Site × Diagnostic)) := do
  match ← (element document).run with
  | .ok top =>
      return (← (← document.children top).mapM (declarationErrors document)).flatten
  | .error diagnostic => return [(.document, diagnostic)]

variable {document : Document} {id : NodeId} {site : Site} {diagnostic : Diagnostic}
  {errors : List (Site × Diagnostic)} {draft reached : Draft}

/-- Errors that say the same are about the same, each in its document. -/
theorem Site.Blamed.eq_of_gist {one other : Site} {left right : Diagnostic}
    (leftBlamed : one.Blamed left) (rightBlamed : other.Blamed right)
    (same : left.gist = right.gist) : one = other := by
  have codes : left.code = right.code := congrArg Prod.fst same
  cases one with
  | document =>
      cases other with
      | document => rfl
      | declaration id =>
          exact absurd (codes.symm.trans leftBlamed)
            (Diagnostic.Blames.declaration rightBlamed)
  | declaration id =>
      cases other with
      | document =>
          exact absurd (codes.trans rightBlamed)
            (Diagnostic.Blames.declaration leftBlamed)
      | declaration other =>
          exact congrArg _ (Diagnostic.Blames.node_eq_of_gist leftBlamed rightBlamed same)

/-! ## The errors about one document -/

theorem blamed_of_declarationErrors (told : declarationErrors document id = .ok errors)
    {error : Site × Diagnostic} (member : error ∈ errors) :
    error.1 = .declaration id ∧ error.1.Blamed error.2 := by
  obtain ⟨statement, said, same⟩ := Reading.bind_eq_ok_iff.mp told
  cases same
  obtain ⟨diagnostic, diagnosticMember, rfl⟩ := List.mem_map.mp member
  exact ⟨rfl, Statement.blames_of_mem_errors said diagnosticMember⟩

theorem ne_nil_declarationErrors_iff (told : declarationErrors document id = .ok errors) :
    errors ≠ [] ↔ Malformed document id := by
  obtain ⟨statement, said, same⟩ := Reading.bind_eq_ok_iff.mp told
  cases same
  rw [← Statement.errors_ne_nil_iff said]
  simp

theorem blamed_of_documentErrors (told : documentErrors document = .ok errors)
    {error : Site × Diagnostic} (member : error ∈ errors) : error.1.Blamed error.2 := by
  obtain ⟨result, answered, told⟩ := Reading.bind_eq_ok_iff.mp told
  rcases run_element_cases answered with
    ⟨top, stylesheet, rfl⟩ | ⟨_, node, line, found, rfl⟩
  · obtain ⟨children, listed, told⟩ := Reading.bind_eq_ok_iff.mp told
    obtain ⟨each, read, same⟩ := Reading.bind_eq_ok_iff.mp told
    cases same
    obtain ⟨own, ownMember, member⟩ := List.mem_flatten.mp member
    obtain ⟨id, _, told⟩ := (Reading.mem_mapM_iff read).mp ownMember
    exact (blamed_of_declarationErrors told member).2
  · cases told
    cases List.mem_singleton.mp member
    rfl

theorem mem_documentErrors_iff (told : documentErrors document = .ok errors) :
    (∃ diagnostic, (site, diagnostic) ∈ errors) ↔ Rejects document site := by
  obtain ⟨result, answered, told⟩ := Reading.bind_eq_ok_iff.mp told
  rcases run_element_cases answered with
    ⟨top, stylesheet, rfl⟩ | ⟨other, node, line, found, rfl⟩
  · obtain ⟨children, listed, told⟩ := Reading.bind_eq_ok_iff.mp told
    obtain ⟨each, read, same⟩ := Reading.bind_eq_ok_iff.mp told
    cases same
    constructor
    · rintro ⟨diagnostic, member⟩
      obtain ⟨own, ownMember, member⟩ := List.mem_flatten.mp member
      obtain ⟨id, idMember, told⟩ := (Reading.mem_mapM_iff read).mp ownMember
      obtain ⟨rfl, _⟩ := blamed_of_declarationErrors told member
      exact .declaration stylesheet listed idMember
        ((ne_nil_declarationErrors_iff told).mp (List.ne_nil_of_mem member))
    · intro rejects
      cases rejects with
      | document other => exact absurd stylesheet (other top)
      | @declaration otherTop id _ otherStylesheet otherListed member malformed =>
          cases stylesheet.first.symm.trans otherStylesheet.first
          cases listed.symm.trans otherListed
          obtain ⟨own, ownMember, told⟩ := Reading.exists_mem_of_mapM read member
          obtain ⟨⟨place, diagnostic⟩, errorMember⟩ :=
            List.exists_mem_of_ne_nil own
              ((ne_nil_declarationErrors_iff told).mpr malformed)
          obtain ⟨rfl, _⟩ := blamed_of_declarationErrors told errorMember
          exact ⟨diagnostic, List.mem_flatten.mpr ⟨own, ownMember, errorMember⟩⟩
  · cases told
    constructor
    · rintro ⟨diagnostic, member⟩
      cases List.mem_singleton.mp member
      exact .document other
    · intro rejects
      cases rejects with
      | document _ => exact ⟨_, List.mem_singleton.mpr rfl⟩
      | declaration stylesheet => exact absurd stylesheet (other _)

/-! ## What a queue is offered -/

/-- The diagnostics that a queue is offered on the way from one draft to another, and
the errors among them. -/
structure Offers (draft : Draft) (offered errors : List Diagnostic) (reached : Draft) :
    Prop where
  queue : reached.queue = draft.queue.addAll offered
  coded : ∀ diagnostic ∈ offered, diagnostic.Coded
  errors : offered.filter Diagnostic.isError = errors

theorem Offers.refl (draft : Draft) : Offers draft [] [] draft :=
  ⟨rfl, by simp, rfl⟩

theorem Offers.trans {between : Draft} {offered more errors others : List Diagnostic}
    (first : Offers draft offered errors between)
    (second : Offers between more others reached) :
    Offers draft (offered ++ more) (errors ++ others) reached where
  queue := by rw [second.queue, first.queue, Diagnostic.Queue.addAll_append]
  coded := by
    intro diagnostic member
    rcases List.mem_append.mp member with member | member
    · exact first.coded diagnostic member
    · exact second.coded diagnostic member
  errors := by rw [List.filter_append, first.errors, second.errors]

theorem exists_offers_of_foldlM {ids : List NodeId}
    (added : ids.foldlM (Draft.addDeclaration document) draft = .ok reached) :
    ∃ each offered, ids.mapM (declarationErrors document) = .ok each ∧
      Offers draft offered (each.flatten.map Prod.snd) reached := by
  induction ids generalizing draft with
  | nil =>
      cases added
      exact ⟨[], [], rfl, .refl reached⟩
  | cons id rest induction =>
      rw [List.foldlM_cons] at added
      obtain ⟨next, addedFirst, addedRest⟩ := Reading.bind_eq_ok_iff.mp added
      obtain ⟨statement, said, takes⟩ := Draft.takes_of_addDeclaration addedFirst
      obtain ⟨offered, queue, coded, errors⟩ := takes.queue
      have first : Offers draft offered statement.errors next := ⟨queue, coded, errors⟩
      obtain ⟨each, more, read, offers⟩ := induction addedRest
      refine ⟨statement.errors.map (.declaration id, ·) :: each, offered ++ more, ?_, ?_⟩
      · simp [List.mapM_cons, declarationErrors, said, read]
      · simpa [List.map_map, Function.comp_def] using first.trans offers

theorem exists_offers_of_addDeclarations
    (added : draft.addDeclarations document = .ok reached) :
    ∃ errors offered, documentErrors document = .ok errors ∧
      Offers draft offered (errors.map Prod.snd) reached := by
  obtain ⟨result, told, added⟩ := Reading.bind_eq_ok_iff.mp added
  rcases run_element_cases told with ⟨top, _, rfl⟩ | ⟨_, node, line, found, rfl⟩
  · obtain ⟨children, listed, added⟩ := Reading.bind_eq_ok_iff.mp added
    obtain ⟨each, offered, read, offers⟩ := exists_offers_of_foldlM added
    exact ⟨each.flatten, offered, by simp [documentErrors, told, listed, read], offers⟩
  · cases added
    refine ⟨[(.document, .notAStylesheet node line found)],
      [.notAStylesheet node line found], by simp [documentErrors, told], rfl, ?_, rfl⟩
    intro diagnostic member
    cases List.mem_singleton.mp member
    rfl

/-! ## Several documents -/

def Draft.addSources (draft : Draft) (sources : List Key.Identified) : Reading Draft :=
  sources.foldlM (fun draft source => draft.addDeclarations source.document) draft

def ErrorAbout (document : Document) (site : Site) (diagnostic : Diagnostic) : Prop :=
  ∃ errors, documentErrors document = .ok errors ∧ (site, diagnostic) ∈ errors

/-- No errors about different documents say the same. -/
def Apart (sources : List Key.Identified) : Prop :=
  ∀ one ∈ sources, ∀ other ∈ sources, one.identity ≠ other.identity →
    ∀ site diagnostic otherSite otherDiagnostic, ErrorAbout one.document site diagnostic →
      ErrorAbout other.document otherSite otherDiagnostic →
      diagnostic.gist ≠ otherDiagnostic.gist

structure Finding where
  identity : Key.DocumentId
  site : Site
  diagnostic : Diagnostic

namespace Finding

def place (finding : Finding) : Key.DocumentId × Site := (finding.identity, finding.site)

def gist (finding : Finding) : Diagnostic.Code × Option NodeId × String :=
  finding.diagnostic.gist

end Finding

structure Findings (sources : List Key.Identified) (found : List Finding) : Prop where
  told : ∀ source ∈ sources, ∃ errors, documentErrors source.document = .ok errors
  mem_iff : ∀ finding, finding ∈ found ↔ ∃ source ∈ sources,
    source.identity = finding.identity ∧
      ErrorAbout source.document finding.site finding.diagnostic

variable {sources : List Key.Identified} {config : Diagnostic.Config}
  {found : List Finding}

namespace Findings

theorem mem_places_iff (findings : Findings sources found) {identity : Key.DocumentId} :
    (identity, site) ∈ (found.map Finding.place).toFinset ↔
      ∃ source ∈ sources, source.identity = identity ∧ Rejects source.document site := by
  rw [List.mem_toFinset, List.mem_map]
  constructor
  · rintro ⟨finding, member, ⟨⟩⟩
    obtain ⟨source, sourceMember, same, errors, told, error⟩ :=
      (findings.mem_iff _).mp member
    exact ⟨source, sourceMember, same, (mem_documentErrors_iff told).mp ⟨_, error⟩⟩
  · rintro ⟨source, member, same, rejects⟩
    obtain ⟨errors, told⟩ := findings.told source member
    obtain ⟨diagnostic, error⟩ := (mem_documentErrors_iff told).mpr rejects
    exact ⟨⟨identity, site, diagnostic⟩,
      (findings.mem_iff _).mpr ⟨source, member, same, errors, told, error⟩, rfl⟩

theorem mem_gists_iff (findings : Findings sources found)
    {gist : Diagnostic.Code × Option NodeId × String} :
    gist ∈ (found.map Finding.gist).toFinset ↔ ∃ source ∈ sources, ∃ site diagnostic,
      ErrorAbout source.document site diagnostic ∧ diagnostic.gist = gist := by
  rw [List.mem_toFinset, List.mem_map]
  constructor
  · rintro ⟨finding, member, same⟩
    obtain ⟨source, sourceMember, _, error⟩ := (findings.mem_iff _).mp member
    exact ⟨source, sourceMember, _, _, error, same⟩
  · rintro ⟨source, member, site, diagnostic, error, same⟩
    exact ⟨⟨source.identity, site, diagnostic⟩,
      (findings.mem_iff _).mpr ⟨source, member, rfl, error⟩, same⟩

theorem site_eq_of_gist (findings : Findings sources found) {one other : Finding}
    (oneMember : one ∈ found) (otherMember : other ∈ found)
    (same : one.gist = other.gist) :
    one.site = other.site := by
  obtain ⟨_, _, _, errors, told, error⟩ := (findings.mem_iff _).mp oneMember
  obtain ⟨_, _, _, others, otherTold, otherError⟩ := (findings.mem_iff _).mp otherMember
  exact (blamed_of_documentErrors told error).eq_of_gist
    (blamed_of_documentErrors otherTold otherError) same

theorem identity_eq_of_gist (findings : Findings sources found) (apart : Apart sources)
    {one other : Finding} (oneMember : one ∈ found) (otherMember : other ∈ found)
    (same : one.gist = other.gist) : one.identity = other.identity := by
  obtain ⟨source, member, identified, error⟩ := (findings.mem_iff _).mp oneMember
  obtain ⟨otherSource, otherMember, otherIdentified, otherError⟩ :=
    (findings.mem_iff _).mp otherMember
  by_contra different
  rw [← identified, ← otherIdentified] at different
  exact apart source member otherSource otherMember different _ _ _ _ error
    otherError same

end Findings

theorem exists_offers_of_addSources (added : draft.addSources sources = .ok reached) :
    ∃ found offered, Findings sources found ∧
      Offers draft offered (found.map Finding.diagnostic) reached := by
  induction sources generalizing draft with
  | nil =>
      cases added
      exact ⟨[], [], ⟨by simp, by simp⟩, .refl reached⟩
  | cons source rest induction =>
      obtain ⟨next, addedFirst, addedRest⟩ := Reading.bind_eq_ok_iff.mp added
      obtain ⟨errors, offered, told, first⟩ := exists_offers_of_addDeclarations addedFirst
      obtain ⟨found, more, findings, offers⟩ := induction addedRest
      refine ⟨errors.map (fun error => ⟨source.identity, error.1, error.2⟩) ++ found,
        offered ++ more, ⟨?_, ?_⟩, ?_⟩
      · exact List.forall_mem_cons.mpr ⟨⟨errors, told⟩, findings.told⟩
      · rintro ⟨identity, site, diagnostic⟩
        simp [findings.mem_iff, ErrorAbout, told, eq_comm, and_comm]
      · simpa [List.map_map, Function.comp_def] using first.trans offers

/-- The errors that a queue without a limit hands over: all that it was offered, or, if
duplicates are dropped, one for all that say the same. -/
theorem countP_isError_of_offers (limitless : config.errorLimit = 0)
    {offered : List Diagnostic}
    (offers :
      Offers { queue := { config } } offered (found.map Finding.diagnostic) reached) :
    reached.finish.diagnostics.countP Diagnostic.isError =
      if config.deduplicate then (found.map Finding.gist).toFinset.card
      else found.length := by
  have handed : reached.finish.diagnostics.countP Diagnostic.isError =
      reached.queue.entries.countP Diagnostic.isError :=
    Diagnostic.Queue.flush_perm.countP_eq _
  rw [handed, offers.queue]
  split
  · next deduplicates =>
      rw [Diagnostic.Queue.countP_isError_addAll limitless deduplicates rfl offers.coded,
        offers.errors, List.map_map]
      rfl
  · next keeps =>
      have unlimited : config = .unlimited := by
        cases config
        simp_all [Diagnostic.Config.unlimited]
      rw [Diagnostic.Queue.entries_addAll_unlimited unlimited, List.nil_append,
        List.countP_eq_length_filter, offers.errors, List.length_map]

theorem card_map_le_card_map {α β γ : Type} [DecidableEq β] [DecidableEq γ]
    {items : List α} {coarse : α → β} {fine : α → γ}
    (told : ∀ one ∈ items, ∀ other ∈ items, fine one = fine other →
      coarse one = coarse other) :
    (items.map coarse).toFinset.card ≤ (items.map fine).toFinset.card := by
  apply Finset.card_le_card_of_forall_subsingleton
    fun seen shown => ∃ item ∈ items, coarse item = seen ∧ fine item = shown
  · intro seen member
    obtain ⟨item, itemMember, rfl⟩ := List.mem_map.mp (List.mem_toFinset.mp member)
    exact ⟨fine item, List.mem_toFinset.mpr (List.mem_map_of_mem itemMember),
      item, itemMember, rfl, rfl⟩
  · rintro shown _ _ ⟨_, one, oneMember, rfl, oneShown⟩
      _ ⟨_, other, otherMember, rfl, otherShown⟩
    exact told one oneMember other otherMember (oneShown.trans otherShown.symm)

theorem card_places_le (limitless : config.errorLimit = 0) {offered : List Diagnostic}
    (offers :
      Offers { queue := { config } } offered (found.map Finding.diagnostic) reached)
    (keep : Finding → Bool)
    (tells : ∀ one ∈ found.filter keep, ∀ other ∈ found.filter keep,
      one.gist = other.gist → one.place = other.place) :
    ((found.filter keep).map Finding.place).toFinset.card ≤
      reached.finish.diagnostics.countP Diagnostic.isError := by
  rw [countP_isError_of_offers limitless offers]
  split
  · have within : ((found.filter keep).map Finding.gist).toFinset ⊆
        (found.map Finding.gist).toFinset := by
      intro gist member
      rw [List.mem_toFinset] at member ⊢
      exact (List.filter_sublist.map _).subset member
    exact (card_map_le_card_map tells).trans (Finset.card_le_card within)
  · calc ((found.filter keep).map Finding.place).toFinset.card
      _ ≤ ((found.filter keep).map Finding.place).length := List.toFinset_card_le _
      _ = (found.filter keep).length := List.length_map _
      _ ≤ found.length := List.length_filter_le _ _

/-- Without a limit, a queue hands over at least as many errors as declarations and
documents are rejected, unless it drops duplicates and the errors say fewer different
things. Errors about one document always say different things, so of each document
enough is reported, and of all, as long as no errors about different documents say the
same. -/
theorem card_rejected_le_iff {sources : List Key.Identified} {config : Diagnostic.Config}
    {draft : Draft} (limitless : config.errorLimit = 0)
    (added : Draft.addSources { queue := { config } } sources = .ok draft) :
    ∃ (rejected : Finset (Key.DocumentId × Site))
      (said : Finset (Diagnostic.Code × Option NodeId × String)),
      (∀ identity site, (identity, site) ∈ rejected ↔
        ∃ source ∈ sources, source.identity = identity ∧ Rejects source.document site) ∧
      (∀ gist, gist ∈ said ↔ ∃ source ∈ sources, ∃ site diagnostic,
        ErrorAbout source.document site diagnostic ∧ diagnostic.gist = gist) ∧
      (rejected.card ≤ draft.finish.diagnostics.countP Diagnostic.isError ↔
        config.deduplicate = false ∨ rejected.card ≤ said.card) ∧
      (∀ identity, (rejected.filter (·.1 = identity)).card ≤
        draft.finish.diagnostics.countP Diagnostic.isError) ∧
      (Apart sources →
        rejected.card ≤ draft.finish.diagnostics.countP Diagnostic.isError) := by
  obtain ⟨found, offered, findings, offers⟩ := exists_offers_of_addSources added
  refine ⟨(found.map Finding.place).toFinset, (found.map Finding.gist).toFinset,
    fun _ _ => findings.mem_places_iff, fun _ => findings.mem_gists_iff, ?_, ?_, ?_⟩
  · rw [countP_isError_of_offers limitless offers]
    cases config.deduplicate with
    | true => simp
    | false => simpa using List.toFinset_card_le (found.map Finding.place)
  · intro identity
    have bound :=
      card_places_le limitless offers (fun finding => finding.identity = identity) <| by
        intro one oneMember other otherMember same
        simp only [List.mem_filter, decide_eq_true_eq] at oneMember otherMember
        exact Prod.ext (oneMember.2.trans otherMember.2.symm)
          (findings.site_eq_of_gist oneMember.1 otherMember.1 same)
    have places : (found.map Finding.place).toFinset.filter (·.1 = identity) =
        ((found.filter fun finding => finding.identity = identity).map
          Finding.place).toFinset := by
      ext place
      simp only [Finset.mem_filter, List.mem_toFinset, List.mem_map, List.mem_filter,
        decide_eq_true_eq]
      constructor
      · rintro ⟨⟨finding, member, rfl⟩, same⟩
        exact ⟨finding, ⟨member, same⟩, rfl⟩
      · rintro ⟨finding, ⟨member, same⟩, rfl⟩
        exact ⟨⟨finding, member, rfl⟩, same⟩
    rwa [places]
  · intro apart
    have bound := card_places_le limitless offers (fun _ => true) <| by
      intro one oneMember other otherMember same
      rw [List.filter_true] at oneMember otherMember
      exact Prod.ext (findings.identity_eq_of_gist apart oneMember otherMember same)
        (findings.site_eq_of_gist oneMember otherMember same)
    rwa [List.filter_true] at bound

def emptyAlias (name : String) : List Operation :=
  [.appendElement 0 name, .declare 1 (some "xsl") transformUri,
    .setNamespace 1 (some ⟨1, 0⟩),
    .appendElement 1 "namespace-alias", .setNamespace 2 (some ⟨1, 0⟩)]

theorem rejects_of_emptyAlias {one other : Document}
    (oneMade : Document.after (emptyAlias "stylesheet") = some one)
    (otherMade : Document.after (emptyAlias "transform") = some other) :
    Rejects one (.declaration 2) ∧ Rejects other (.declaration 2) := by
  cases oneMade
  cases otherMade
  constructor
  · exact .declaration ⟨rfl, rfl, .inl rfl⟩ rfl (List.mem_singleton.mpr rfl)
      ((Statement.malformed_iff rfl).mpr ⟨_, rfl⟩)
  · exact .declaration ⟨rfl, rfl, .inr rfl⟩ rfl (List.mem_singleton.mpr rfl)
      ((Statement.malformed_iff rfl).mpr ⟨_, rfl⟩)

theorem card_rejected_le_iff_emptyAlias :
    ∃ one other draft, Document.after (emptyAlias "stylesheet") = some one ∧
      Document.after (emptyAlias "transform") = some other ∧
      Draft.addSources { queue := { config := .unlimited } } [⟨0, one⟩, ⟨1, other⟩] =
        .ok draft ∧
      ∃ rejected : Finset (Key.DocumentId × Site),
        (0, .declaration 2) ∈ rejected ∧ (1, .declaration 2) ∈ rejected ∧
        rejected.card ≤ draft.finish.diagnostics.countP Diagnostic.isError := by
  have made : ∃ one other draft, Document.after (emptyAlias "stylesheet") = some one ∧
      Document.after (emptyAlias "transform") = some other ∧
      Draft.addSources { queue := { config := .unlimited } } [⟨0, one⟩, ⟨1, other⟩] =
        .ok draft :=
    ⟨_, _, _, rfl, rfl, rfl⟩
  obtain ⟨one, other, draft, oneMade, otherMade, added⟩ := made
  have rejects := rejects_of_emptyAlias oneMade otherMade
  obtain ⟨rejected, _, members, _, enough, _⟩ := card_rejected_le_iff rfl added
  refine ⟨one, other, draft, oneMade, otherMade, added, rejected, (members _ _).mpr ?_,
    (members _ _).mpr ?_, enough.mpr (.inl rfl)⟩
  · exact ⟨⟨0, one⟩, by simp, rfl, rejects.1⟩
  · exact ⟨⟨1, other⟩, by simp, rfl, rejects.2⟩

/-- If they are dropped, the second document is passed over in silence. -/
theorem countP_isError_lt_of_emptyAlias :
    ∃ one other draft, Document.after (emptyAlias "stylesheet") = some one ∧
      Document.after (emptyAlias "transform") = some other ∧
      Draft.addSources { queue := { config := ⟨0, true⟩ } } [⟨0, one⟩, ⟨1, other⟩] =
        .ok draft ∧
      ∀ rejected : Finset (Key.DocumentId × Site),
        (∀ identity site, (identity, site) ∈ rejected ↔
          ∃ source ∈ ([⟨0, one⟩, ⟨1, other⟩] : List Key.Identified),
            source.identity = identity ∧ Rejects source.document site) →
        draft.finish.diagnostics.countP Diagnostic.isError < rejected.card := by
  have made : ∃ one other draft, Document.after (emptyAlias "stylesheet") = some one ∧
      Document.after (emptyAlias "transform") = some other ∧
      Draft.addSources { queue := { config := ⟨0, true⟩ } } [⟨0, one⟩, ⟨1, other⟩] =
        .ok draft ∧
      draft.queue.entries.countP Diagnostic.isError = 1 := ⟨_, _, _, rfl, rfl, rfl, rfl⟩
  obtain ⟨one, other, draft, oneMade, otherMade, added, count⟩ := made
  refine ⟨one, other, draft, oneMade, otherMade, added, fun rejected members => ?_⟩
  have rejects := rejects_of_emptyAlias oneMade otherMade
  have both :
      ({(0, .declaration 2), (1, .declaration 2)} : Finset (Key.DocumentId × Site)) ⊆
      rejected := by
    intro place member
    rcases Finset.mem_insert.mp member with rfl | member
    · exact (members _ _).mpr ⟨⟨0, one⟩, by simp, rfl, rejects.1⟩
    · rw [Finset.mem_singleton.mp member]
      exact (members _ _).mpr ⟨⟨1, other⟩, by simp, rfl, rejects.2⟩
  calc draft.finish.diagnostics.countP Diagnostic.isError
    _ = draft.queue.entries.countP Diagnostic.isError :=
        Diagnostic.Queue.flush_perm.countP_eq _
    _ < 2 := by rw [count]; decide
    _ ≤ rejected.card := Finset.card_le_card both

end ResultTree.Stylesheet
