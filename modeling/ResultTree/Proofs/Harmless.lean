import ResultTree.Proofs.Document.Handles

namespace ResultTree

/-! Readings that end only in faults of a kind. On a document whose handles all
denote something, no foreign address can end a reading that starts at a node of the
document: at worst it follows links that run in a circle. Where the way up from the
node ends, there is nothing left for it to end in, and it has an answer. -/

/-- Nothing but a fault of this kind can end the reading. -/
def Reading.FaultsOnly (kind : Fault → Prop) (reading : Reading α) : Prop :=
  ∀ fault, reading = .error fault → kind fault

abbrev Reading.Harmless (reading : Reading α) : Prop :=
  reading.FaultsOnly (· = .endlessWalk)

def Attempt.FaultsOnly {ε : Type} (kind : Fault → Prop) (attempt : Attempt ε α) : Prop :=
  Reading.FaultsOnly kind attempt.run

abbrev Attempt.Harmless {ε : Type} (attempt : Attempt ε α) : Prop :=
  attempt.FaultsOnly (· = .endlessWalk)

variable {α β ε : Type} {kind : Fault → Prop}

namespace Reading.FaultsOnly

theorem ok (answer : α) : FaultsOnly kind (.ok answer) := by
  intro fault failed
  cases failed

theorem error {fault : Fault} (allowed : kind fault) :
    FaultsOnly kind (.error fault : Reading α) := by
  intro other failed
  cases failed
  exact allowed

theorem of_eq_ok {reading : Reading α} {answer : α} (known : reading = .ok answer) :
    FaultsOnly kind reading :=
  known ▸ ok answer

theorem exists_answer {reading : Reading α}
    (faultless : FaultsOnly (fun _ => False) reading) :
    ∃ answer, reading = .ok answer := by
  rcases reading.ok_or_error with answered | ⟨fault, failed⟩
  · exact answered
  · exact (faultless fault failed).elim

theorem bind {reading : Reading α} {next : α → Reading β}
    (first : FaultsOnly kind reading)
    (second : ∀ answer, reading = .ok answer → FaultsOnly kind (next answer)) :
    FaultsOnly kind (reading >>= next) := by
  intro fault failed
  rcases bind_eq_error_iff.mp failed with failed | ⟨answer, known, failed⟩
  · exact first fault failed
  · exact second answer known fault failed

theorem map {reading : Reading α} (change : α → β) (only : FaultsOnly kind reading) :
    FaultsOnly kind (change <$> reading) :=
  fun fault failed => only fault (map_eq_error_iff.mp failed)

theorem findM? {test : α → Reading Bool} {items : List α}
    (each : ∀ item ∈ items, FaultsOnly kind (test item)) :
    FaultsOnly kind (items.findM? test) := by
  induction items with
  | nil => exact ok none
  | cons item rest induction =>
      apply (each item (by simp)).bind
      intro passed _
      cases passed with
      | true => exact ok _
      | false =>
          exact induction fun other member => each other (List.mem_cons_of_mem _ member)

end Reading.FaultsOnly

namespace Attempt.FaultsOnly

theorem pure (answer : α) : FaultsOnly kind (pure answer : Attempt ε α) :=
  Reading.FaultsOnly.ok (Except.ok answer)

theorem throw (refusal : ε) : FaultsOnly kind (throw refusal : Attempt ε α) :=
  Reading.FaultsOnly.ok (Except.error refusal)

theorem read {reading : Reading α} (only : reading.FaultsOnly kind) :
    FaultsOnly kind (liftM reading : Attempt ε α) :=
  only.map Except.ok

theorem answer (answer : Except ε α) : FaultsOnly kind (liftM answer : Attempt ε α) :=
  Reading.FaultsOnly.ok answer

theorem bind {attempt : Attempt ε α} {next : α → Attempt ε β}
    (first : FaultsOnly kind attempt) (second : ∀ answer, FaultsOnly kind (next answer)) :
    FaultsOnly kind (attempt >>= next) := by
  apply Reading.FaultsOnly.bind first
  intro result _
  cases result with
  | ok answer => exact second answer
  | error refusal => exact Reading.FaultsOnly.ok (Except.error refusal)

theorem map {attempt : Attempt ε α} (change : α → β) (only : FaultsOnly kind attempt) :
    FaultsOnly kind (change <$> attempt) := by
  apply Reading.FaultsOnly.bind only
  intro result _
  cases result <;> exact Reading.FaultsOnly.ok _

theorem adapt {ε' : Type} {attempt : Attempt ε α} (change : ε → ε')
    (only : FaultsOnly kind attempt) : FaultsOnly kind (attempt.adapt change) :=
  Reading.FaultsOnly.map _ only

end Attempt.FaultsOnly

/-! ## Readings of a document whose handles are known -/

namespace Document

variable {document : Document} {id : NodeId}

theorem AllKnown.attributeValue? (known : document.AllKnown) (inside : id < document.size)
    (name uri : String) : (document.attributeValue? id name uri).FaultsOnly kind := by
  rcases exists_element? inside with ⟨element, held⟩
  simp only [Document.attributeValue?, Document.attributes, held, Reading.map_ok,
    Reading.ok_bind]
  refine Reading.FaultsOnly.bind (.findM? fun candidate member => ?_) fun found _ => .ok _
  unfold answers
  split
  · cases element with
    | none => simp at member
    | some element =>
        have named (handle : Handle) (named : candidate.ns = some handle) :=
          known id element (content_of_element? held) handle
            (Element.mem_handles_of_attribute member named)
        rcases exists_uri? named with ⟨own, ownKnown⟩
        rw [ownKnown]
        cases own <;> exact .ok _
  · exact .ok false

def Searchable (document : Document) (kind : Fault → Prop) (id : NodeId) : Prop :=
  ∀ nsPrefix, (document.findPrefix id nsPrefix).FaultsOnly kind

theorem searchable_of_inside (inside : id < document.size) :
    document.Searchable (· = .endlessWalk) id := by
  intro nsPrefix
  unfold Document.findPrefix
  split
  · exact .ok _
  · rw [Document.scope, ascent_of_inside inside]
    simp only [Reading.ok_bind, Reading.pure_eq_ok]
    unfold Scope.conclude
    split
    · exact .error rfl
    · exact .ok _

theorem Way.searchable {nodes : List NodeId} (linked : document.Linked)
    (way : document.Way id nodes) (inside : id < document.size) :
    document.Searchable kind id :=
  fun nsPrefix => .of_eq_ok (way.findPrefix linked inside nsPrefix)

theorem Linked.uri?_findPrefix (linked : document.Linked)
    (searchable : document.Searchable kind id) (nsPrefix : Option String) :
    (do document.uri? (← document.findPrefix id nsPrefix) :
      Reading (Option String)).FaultsOnly kind := by
  apply (searchable nsPrefix).bind
  intro found known
  rcases @exists_uri? document found (by
    intro handle same
    subst same
    exact linked.binding_of_findPrefix known) with ⟨uri, denoted⟩
  exact .of_eq_ok denoted

end Document

end ResultTree
