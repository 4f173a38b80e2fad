import ResultTree.Key.Session
import ResultTree.Proofs.Key.Listing

namespace ResultTree

/-! What lookups answer in the course of a session, told from its history alone. A lookup
of a defined key visits a document. Since the last release, the first visit of a document
under a name settles what later ones are answered, however the definitions and the
document change. -/

theorem OrderedMap.mem_keys_iff {κ : Type u} {β : Type v} [DecidableEq κ]
    {map : OrderedMap κ β} {key : κ} : key ∈ map.keys ↔ (map.get? key).isSome := by
  simp [keys, get?, List.lookup_isSome_iff]

namespace Key

/-! ## Steps -/

namespace Session

inductive Step
  | add (document : Document)
  | edit (number : Nat) (edit : Edit Unit)
  | clone (number : Nat)
  | renew (number : Nat)
  | define (name : Name) (matchSource useSource : String) (scope : PrefixScope)
  | lookup (number : Nat) (name : Name) (value : String)
  | release

def perform (session : Session) : Step → Reading Session
  | .add document => return session.addDocument document
  | .edit number edit =>
      match session.document? number with
      | some document => return session.putDocument number (edit.outcome document).2
      | none => return session
  | .clone number =>
      match session.document? number with
      | some document => return session.addDocument document
      | none => return session
  | .renew number => return session.renew number
  | .define name matchSource useSource scope => do
      match ← (session.define name matchSource useSource scope).run with
      | .ok changed => return changed
      | .error _ => return session
  | .lookup number name value =>
      match session.documents[number]? with
      | some target => Prod.snd <$> session.lookup target name value
      | none => return session
  | .release => return session.release

structure Distinct (session : Session) : Prop where
  below {number : Nat} {held : Identified} : session.documents[number]? = some held →
    held.identity < session.nextIdentity
  apart {number other : Nat} {one two : Identified} :
  session.documents[number]? = some one →
    session.documents[other]? = some two → one.identity = two.identity → number = other

end Session

/-! ## Visits -/

/-- A lookup of a defined key: the definitions of the key and the document, as they stood
at the time. -/
structure Visit where
  name : Name
  identity : DocumentId
  definitions : List Definition
  document : Document

namespace Visit

def key (visit : Visit) : Name × DocumentId := (visit.name, visit.identity)

def index (visit : Visit) : Reading Index := Index.build visit.definitions visit.document

def first? (visits : List Visit) (key : Name × DocumentId) : Option Visit :=
  visits.find? fun visit => visit.key = key

variable {visits : List Visit} {visit : Visit} {key : Name × DocumentId}

theorem first?_append_singleton_same (visits : List Visit) (visit : Visit) :
    first? (visits ++ [visit]) visit.key =
      some ((first? visits visit.key).getD visit) := by
  rw [first?, List.find?_append]
  cases found : visits.find? fun other => other.key = visit.key <;> simp [first?, found]

theorem first?_append_singleton_other (different : key ≠ visit.key) :
    first? (visits ++ [visit]) key = first? visits key := by
  simp [first?, List.find?_append, Ne.symm different]

theorem isSome_first?_iff : (first? visits key).isSome ↔ key ∈ visits.map Visit.key := by
  simp [first?, List.find?_isSome]

end Visit

namespace Session

def visit? (session : Session) (target : Identified) (name : Name) : Option Visit :=
  (session.definitions.get? name).map fun definitions =>
    ⟨name, target.identity, definitions, target.document⟩

def visits (session : Session) (earlier : List Visit) : Step → List Visit
  | .lookup number name _ =>
      earlier ++
        (session.documents[number]?.bind fun target => session.visit? target name).toList
  | .release => []
  | _ => earlier

inductive History : List Visit → Session → Prop
  | start (definitions : Definitions) : History [] { definitions }
  | next {earlier : List Visit} {session changed : Session} {step : Step}
      (history : History earlier session)
      (performed : session.perform step = .ok changed) :
      History (session.visits earlier step) changed

/-- A session holds the indexes that were made for the first of some visits of each
document under each name, and no others. -/
structure Remembers (session : Session) (visits : List Visit) : Prop where
  distinct : session.Distinct
  before : ∀ visit ∈ visits, visit.identity < session.nextIdentity
  held : ∀ key, (session.cache.indexes.get? key).map Except.ok =
    (Visit.first? visits key).map Visit.index

variable {session changed : Session} {visits : List Visit} {target : Identified}
  {name : Name} {value : String} {number : Nat}

/-! ## Identities -/

theorem Distinct.addDocument (distinct : session.Distinct) (document : Document) :
    (session.addDocument document).Distinct := by
  have bounds {number : Nat} {held : Identified}
      (found : (session.addDocument document).documents[number]? = some held) :
      held.identity < session.nextIdentity ∧ session.documents[number]? = some held ∨
        held.identity = session.nextIdentity ∧ number = session.documents.size := by
    rw [Session.addDocument, Array.getElem?_push] at found
    split at found
    · next last =>
        cases found
        exact .inr ⟨rfl, last⟩
    · exact .inl ⟨distinct.below found, found⟩
  constructor
  · intro number held found
    rcases bounds found with ⟨below, _⟩ | ⟨same, _⟩
    · exact Nat.lt_succ_of_lt below
    · exact same ▸ Nat.lt_succ_self _
  · intro number other one two found otherFound same
    rcases bounds found with ⟨below, found⟩ | ⟨isNew, last⟩ <;>
      rcases bounds otherFound with ⟨otherBelow, otherFound⟩ | ⟨otherNew, otherLast⟩
    · exact distinct.apart found otherFound same
    · exact absurd (same.trans otherNew) (Nat.ne_of_lt below)
    · exact absurd (same.symm.trans isNew) (Nat.ne_of_lt otherBelow)
    · rw [last, otherLast]

theorem Distinct.modify (distinct : session.Distinct) (change : Identified → Identified)
    {nextIdentity : DocumentId} (later : session.nextIdentity ≤ nextIdentity)
    (kept : ∀ held, (change held).identity = held.identity ∨
      (change held).identity = session.nextIdentity ∧
      session.nextIdentity < nextIdentity) :
    Distinct { session with
      documents := session.documents.modify number change, nextIdentity } := by
  have origin {other : Nat} {held : Identified}
      (found : (session.documents.modify number change)[other]? = some held) :
      ∃ before, session.documents[other]? = some before ∧
        (held.identity = before.identity ∨ other = number ∧
          held.identity = session.nextIdentity ∧
          session.nextIdentity < nextIdentity) := by
    rw [Array.getElem?_modify] at found
    split at found
    · next here =>
        obtain ⟨before, there, rfl⟩ := Option.map_eq_some_iff.mp found
        exact ⟨before, there, (kept before).imp_right fun isNew => ⟨here.symm, isNew⟩⟩
    · exact ⟨held, found, .inl rfl⟩
  constructor
  · intro other held found
    obtain ⟨before, there, same | ⟨_, same, bound⟩⟩ := origin found
    · exact same ▸ Nat.lt_of_lt_of_le (distinct.below there) later
    · exact same ▸ bound
  · intro first second one two firstFound secondFound same
    obtain ⟨before, there, kept⟩ := origin firstFound
    obtain ⟨other, otherThere, otherKept⟩ := origin secondFound
    have below := distinct.below there
    have otherBelow := distinct.below otherThere
    rcases kept with kept | ⟨here, isNew, _⟩ <;>
      rcases otherKept with otherKept | ⟨otherHere, otherNew, _⟩
    · exact distinct.apart there otherThere (kept.symm.trans (same.trans otherKept))
    · exact absurd (kept.symm.trans (same.trans otherNew)) (Nat.ne_of_lt below)
    · exact absurd (otherKept.symm.trans (same.symm.trans isNew))
        (Nat.ne_of_lt otherBelow)
    · rw [here, otherHere]

theorem Distinct.putDocument (distinct : session.Distinct) (number : Nat)
    (document : Document) :
    (session.putDocument number document).Distinct :=
  distinct.modify _ (Nat.le_refl _) fun _ => .inl rfl

theorem Distinct.renew (distinct : session.Distinct) (number : Nat) :
    (session.renew number).Distinct :=
  distinct.modify _ (Nat.le_succ _) fun _ => .inr ⟨rfl, Nat.lt_succ_self _⟩

/-! ## Lookups -/

theorem lookup_of_undefined (undefined : session.definitions.get? name = none) :
    session.lookup target name value = .ok ([], session) := by
  simp [lookup, Cache.lookup, undefined]

theorem lookup_of_visit {visit : Visit}
    (visited : session.visit? target name = some visit) :
    session.lookup target name value =
      match session.cache.indexes.get? visit.key with
      | some index => .ok (index.get value, session)
      | none => (fun index => (index.get value,
          { session with cache := ⟨session.cache.indexes.insert visit.key index⟩ })) <$>
            visit.index := by
  obtain ⟨definitions, defined, rfl⟩ := Option.map_eq_some_iff.mp visited
  simp only [lookup, Cache.lookup, defined, Visit.key, Visit.index]
  cases session.cache.indexes.get? (name, target.identity) with
  | some index => rfl
  | none => cases built : Index.build definitions target.document <;> simp [built]

/-- A lookup of a defined key is answered from the index of the first visit, its own
included. -/
theorem Remembers.lookup_eq (remembers : session.Remembers visits) {visit : Visit}
    (visited : session.visit? target name = some visit) :
    ∃ first, Visit.first? (visits ++ [visit]) visit.key = some first ∧
      Prod.fst <$> session.lookup target name value = (·.get value) <$> first.index := by
  refine ⟨_, Visit.first?_append_singleton_same visits visit, ?_⟩
  have held := remembers.held visit.key
  rw [lookup_of_visit visited]
  cases earlier : Visit.first? visits visit.key with
  | none =>
      rw [earlier, Option.map_none, Option.map_eq_none_iff] at held
      rw [held, Option.getD_none]
      cases visit.index <;> rfl
  | some first =>
      rw [earlier] at held
      obtain ⟨index, there, built⟩ := Option.map_eq_some_iff.mp held
      rw [there, Option.getD_some, ← built]
      rfl

theorem Remembers.lookup (remembers : session.Remembers visits) {nodes : List NodeId}
    (there : session.documents[number]? = some target)
    (answered : session.lookup target name value = .ok (nodes, changed)) :
    changed.Remembers (visits ++ (session.visit? target name).toList) := by
  cases visited : session.visit? target name with
  | none =>
      rw [lookup_of_undefined (Option.map_eq_none_iff.mp visited)] at answered
      cases answered
      simpa using remembers
  | some visit =>
      have identified : visit.identity = target.identity := by
        obtain ⟨definitions, _, rfl⟩ := Option.map_eq_some_iff.mp visited
        rfl
      have before : ∀ other ∈ visits ++ [visit],
          other.identity < session.nextIdentity := by
        intro other member
        rcases List.mem_append.mp member with member | member
        · exact remembers.before other member
        · rw [List.mem_singleton.mp member, identified]
          exact remembers.distinct.below there
      have held := remembers.held visit.key
      rw [lookup_of_visit visited] at answered
      cases indexed : session.cache.indexes.get? visit.key with
      | some index =>
          -- An index that is there was made for an earlier visit.
          rw [indexed] at answered held
          cases answered
          obtain ⟨first, earlier, _⟩ := Option.map_eq_some_iff.mp held.symm
          refine ⟨remembers.distinct, before, fun key => ?_⟩
          by_cases same : key = visit.key
          · rw [same, indexed, held, Option.toList_some,
              Visit.first?_append_singleton_same, earlier]
            rfl
          · rw [Option.toList_some, Visit.first?_append_singleton_other same,
              remembers.held]
      | none =>
          rw [indexed] at answered held
          obtain ⟨index, built, same⟩ := Reading.map_eq_ok_iff.mp answered
          cases same
          have earlier := Option.map_eq_none_iff.mp held.symm
          refine ⟨⟨remembers.distinct.below, remembers.distinct.apart⟩, before,
            fun key => ?_⟩
          by_cases same : key = visit.key
          · rw [same, Option.toList_some, Visit.first?_append_singleton_same, earlier]
            simp [OrderedMap.insert, built]
          · rw [Option.toList_some, Visit.first?_append_singleton_other same,
              ← remembers.held, OrderedMap.insert, OrderedMap.get?_update_other _ same]

theorem exists_lookup (reachable : target.document.Reachable)
    (known : target.document.AllKnown) (name : Name) (value : String) :
    ∃ answer, session.lookup target name value = .ok answer := by
  cases visited : session.visit? target name with
  | none => exact ⟨_, lookup_of_undefined (Option.map_eq_none_iff.mp visited)⟩
  | some visit =>
      rw [lookup_of_visit visited]
      cases session.cache.indexes.get? visit.key with
      | some index => exact ⟨_, rfl⟩
      | none =>
          obtain ⟨definitions, _, rfl⟩ := Option.map_eq_some_iff.mp visited
          obtain ⟨index, built, _⟩ :=
            Index.exists_build reachable.linked known definitions
          exact ⟨_, by rw [Visit.index, built]; rfl⟩

/-! ## Histories -/

theorem remembers_start (definitions : Definitions) : Remembers { definitions } [] where
  distinct := by
    constructor
    · intro number held found
      simp at found
    · intro number other one two found
      simp at found
  before := by simp
  held key := rfl

theorem Remembers.addDocument (remembers : session.Remembers visits)
    (document : Document) :
    (session.addDocument document).Remembers visits where
  distinct := remembers.distinct.addDocument document
  before visit member := Nat.lt_succ_of_lt (remembers.before visit member)
  held := remembers.held

theorem Remembers.perform (remembers : session.Remembers visits) :
    ∀ {step : Step}, session.perform step = .ok changed →
      changed.Remembers (session.visits visits step)
  | .add document, performed => by
      cases performed
      exact remembers.addDocument document
  | .edit number edit, performed => by
      rw [Session.perform] at performed
      split at performed
      · cases performed
        exact ⟨remembers.distinct.putDocument _ _, remembers.before, remembers.held⟩
      · cases performed
        exact remembers
  | .clone number, performed => by
      rw [Session.perform] at performed
      split at performed
      · cases performed
        exact remembers.addDocument _
      · cases performed
        exact remembers
  | .renew number, performed => by
      cases performed
      exact ⟨remembers.distinct.renew _,
        fun visit member =>
          Nat.lt_succ_of_lt (remembers.before visit member), remembers.held⟩
  | .define name matchSource useSource scope, performed => by
      obtain ⟨result, defined, same⟩ := Reading.bind_eq_ok_iff.mp performed
      cases result with
      | error error =>
          cases same
          exact remembers
      | ok left =>
          cases same
          obtain ⟨definitions, _, same⟩ := Attempt.bind_eq_ok_iff.mp defined
          cases same
          exact ⟨⟨remembers.distinct.below, remembers.distinct.apart⟩, remembers.before,
            remembers.held⟩
  | .lookup number name value, performed => by
      rw [Session.perform] at performed
      rw [Session.visits]
      cases there : session.documents[number]? with
      | none =>
          rw [there] at performed
          cases performed
          simpa using remembers
      | some target =>
          rw [there] at performed
          obtain ⟨⟨nodes, left⟩, answered, same⟩ := Reading.map_eq_ok_iff.mp performed
          cases same
          exact remembers.lookup there answered
  | .release, performed => by
      cases performed
      exact ⟨⟨remembers.distinct.below, remembers.distinct.apart⟩, by
        simp [Session.visits], fun key => rfl⟩

theorem exists_identity_of_perform (there : session.documents[number]? = some target) :
    ∀ {step : Step}, step ≠ .renew number → session.perform step = .ok changed →
      ∃ held, changed.documents[number]? = some held ∧
        held.identity = target.identity := by
  have inside : number < session.documents.size := (Array.getElem?_eq_some_iff.mp there).1
  have added (document : Document) :
      (session.addDocument document).documents[number]? = some target := by
    rw [addDocument, Array.getElem?_push, if_neg (Nat.ne_of_lt inside), there]
  intro step other performed
  cases step with
  | add document =>
      cases performed
      exact ⟨target, added document, rfl⟩
  | edit place edit =>
      rw [perform] at performed
      split at performed
      · cases performed
        rw [putDocument, Array.getElem?_modify, there]
        split
        · exact ⟨_, rfl, rfl⟩
        · exact ⟨target, rfl, rfl⟩
      · cases performed
        exact ⟨target, there, rfl⟩
  | clone place =>
      rw [perform] at performed
      split at performed
      · cases performed
        exact ⟨target, added _, rfl⟩
      · cases performed
        exact ⟨target, there, rfl⟩
  | renew place =>
      have elsewhere : place ≠ number := fun same => other (congrArg Step.renew same)
      cases performed
      rw [renew, Array.getElem?_modify, if_neg elsewhere]
      exact ⟨target, there, rfl⟩
  | define name matchSource useSource scope =>
      obtain ⟨result, defined, same⟩ := Reading.bind_eq_ok_iff.mp performed
      cases result with
      | error error =>
          cases same
          exact ⟨target, there, rfl⟩
      | ok left =>
          cases same
          obtain ⟨definitions, _, same⟩ := Attempt.bind_eq_ok_iff.mp defined
          cases same
          exact ⟨target, there, rfl⟩
  | lookup place name value =>
      rw [perform] at performed
      split at performed
      · obtain ⟨⟨nodes, left⟩, answered, same⟩ := Reading.map_eq_ok_iff.mp performed
        obtain ⟨⟨_, cache⟩, _, kept⟩ := Reading.bind_eq_ok_iff.mp answered
        cases kept
        cases same
        exact ⟨target, there, rfl⟩
      · cases performed
        exact ⟨target, there, rfl⟩
  | release =>
      cases performed
      exact ⟨target, there, rfl⟩

theorem History.remembers (history : History visits session) :
    session.Remembers visits := by
  induction history with
  | start definitions => exact remembers_start definitions
  | next _ performed induction => exact induction.perform performed

theorem Remembers.size_cache (remembers : session.Remembers visits) :
    session.cache.size = (visits.map Visit.key).toFinset.card := by
  have same : session.cache.indexes.keys.toFinset = (visits.map Visit.key).toFinset := by
    ext key
    have held := congrArg Option.isSome (remembers.held key)
    rw [Option.isSome_map, Option.isSome_map] at held
    rw [List.mem_toFinset, List.mem_toFinset, OrderedMap.mem_keys_iff, held,
      Visit.isSome_first?_iff]
  have distinct : session.cache.indexes.keys.Nodup := session.cache.indexes.distinct
  rw [← same, List.toFinset_card_of_nodup distinct, OrderedMap.keys, List.length_map]
  rfl

def AnswersAnew (session : Session) (target : Identified) (name : Name) (value : String) :
    Prop :=
  ∀ definitions, session.definitions.get? name = some definitions →
    Prod.fst <$> session.lookup target name value =
      (fun index => index.get value) <$> Index.build definitions target.document

theorem Remembers.answersAnew (remembers : session.Remembers visits)
    (unvisited : ∀ visit ∈ visits, visit.identity ≠ target.identity) :
    session.AnswersAnew target name value := by
  intro definitions defined
  have visited : session.visit? target name =
      some ⟨name, target.identity, definitions, target.document⟩ := by
    rw [visit?, defined, Option.map_some]
  obtain ⟨first, found, answered⟩ := remembers.lookup_eq visited
  have none : Visit.first? visits (name, target.identity) = none := by
    refine List.find?_eq_none.mpr fun visit member same => unvisited visit member ?_
    exact congrArg Prod.snd (of_decide_eq_true same)
  rw [Visit.first?_append_singleton_same] at found
  change some ((Visit.first? visits (name, target.identity)).getD _) = some first at found
  rw [none] at found
  cases found
  exact answered

/-- What a lookup answers at any time. A key that is not defined has no nodes, and looking
it up changes nothing. A defined key is answered from an index of the definitions and the
document as they stood at the first visit since the last release, and there is an index
for each document and name that were visited. Documents differ in their identities and
keep them, and a copy gets an identity that no visit had, so it is answered anew. -/
theorem lookup_eq_first_visit (history : History visits session)
    (there : session.documents[number]? = some target) (name : Name) (value : String) :
    session.Distinct ∧
      (∀ step changed, step ≠ .renew number → session.perform step = .ok changed →
        ∃ held, changed.documents[number]? = some held ∧
          held.identity = target.identity) ∧
      (session.definitions.get? name = none →
        session.lookup target name value = .ok ([], session)) ∧
      (∀ definitions, session.definitions.get? name = some definitions → ∃ first,
        Visit.first? (visits ++ [⟨name, target.identity, definitions, target.document⟩])
            (name, target.identity) = some first ∧
          Prod.fst <$> session.lookup target name value =
            (fun index => index.get value) <$>
              Index.build first.definitions first.document) ∧
      (target.document.Reachable → target.document.AllKnown →
        ∃ answer, session.lookup target name value = .ok answer) ∧
      session.cache.size = (visits.map Visit.key).toFinset.card ∧
      ∃ copy : Identified, copy.document = target.document ∧
        (∀ visit ∈ visits, visit.identity ≠ copy.identity) ∧
        (∃ cloned, session.perform (.clone number) = .ok cloned ∧
          cloned.documents[session.documents.size]? = some copy ∧
          cloned.AnswersAnew copy name value) ∧
        ∃ renewed, session.perform (.renew number) = .ok renewed ∧
          renewed.documents[number]? = some copy ∧
          renewed.AnswersAnew copy name value := by
  have remembers := history.remembers
  refine ⟨remembers.distinct, fun _ _ => exists_identity_of_perform there,
    lookup_of_undefined,
    fun definitions defined => ?_, fun reachable known =>
      exists_lookup reachable known name value,
    remembers.size_cache, ⟨session.nextIdentity, target.document⟩, rfl, ?_, ?_, ?_⟩
  · exact remembers.lookup_eq (by rw [visit?, defined, Option.map_some])
  · exact fun visit member => Nat.ne_of_lt (remembers.before visit member)
  · have cloned : session.perform (.clone number) =
        .ok (session.addDocument target.document) := by
      simp [Session.perform, document?, there]
    refine ⟨_, cloned, by simp [addDocument], (remembers.perform cloned).answersAnew ?_⟩
    exact fun visit member => Nat.ne_of_lt (remembers.before visit member)
  · have renewed : session.perform (.renew number) = .ok (session.renew number) := rfl
    refine ⟨_, renewed, by simp [renew, Array.getElem?_modify, there],
      (remembers.perform renewed).answersAnew ?_⟩
    exact fun visit member => Nat.ne_of_lt (remembers.before visit member)

def byAttribute : Definition :=
  ⟨⟨"n", none⟩, "i", "@k", ⟨[[.ofName (.named none "i")]]⟩,
    ⟨[.attribute (.named none "k")]⟩⟩

theorem lookup_eq_first_visit_edited :
    ∃ document edited visits session,
      Document.after [.appendElement 0 "r", .appendElement 1 "i",
        .setAttribute 2 "k" none "a"] = some document ∧
      edited ≠ document ∧ History visits session ∧
      session.documents[0]? = some ⟨0, edited⟩ ∧
      Prod.fst <$> session.lookup ⟨0, edited⟩ ⟨"n", none⟩ "a" =
        (fun index => index.get "a") <$> Index.build [byAttribute] document ∧
      session.cache.size = 1 ∧
      ∃ cloned copy, session.perform (.clone 0) = .ok cloned ∧
        cloned.documents[1]? = some copy ∧
        Prod.fst <$> cloned.lookup copy ⟨"n", none⟩ "a" =
          (fun index => index.get "a") <$> Index.build [byAttribute] edited := by
  have made : ∃ document edited visits session,
      Document.after [.appendElement 0 "r", .appendElement 1 "i",
        .setAttribute 2 "k" none "a"] = some document ∧
      History visits session ∧ session.documents[0]? = some ⟨0, edited⟩ ∧
      edited ≠ document ∧
      visits = [⟨⟨"n", none⟩, 0, [byAttribute], document⟩] ∧
      session.definitions.get? ⟨"n", none⟩ = some [byAttribute] ∧
      session.documents.size = 1 :=
    ⟨_, _, _, _, rfl,
      @History.next _ _ _ (.edit 0 (Edit.setAttribute 2 "k" none "b"))
        (@History.next _ _ _ (.lookup 0 ⟨"n", none⟩ "c")
          (@History.next _ _ _ (.add _) (.start (Definitions.add .empty byAttribute))
            rfl) rfl) rfl,
      rfl, by decide, rfl, rfl, rfl⟩
  obtain ⟨document, edited, _, session, made, history, there, changed, rfl, defined,
      alone⟩ := made
  obtain ⟨_, _, _, answers, _, size, copy, rfl, _, ⟨cloned, performed, last, anew⟩, _⟩ :=
    lookup_eq_first_visit history there ⟨"n", none⟩ "a"
  obtain ⟨first, found, answered⟩ := answers _ defined
  cases found
  have kept : cloned.definitions = session.definitions := by
    rw [perform, document?, there] at performed
    cases performed
    rfl
  rw [alone] at last
  exact ⟨document, copy.document, _, session, made, changed, history, there, answered,
    size, cloned, copy, performed, last, anew _ (kept ▸ defined)⟩

end Session

end Key

end ResultTree
