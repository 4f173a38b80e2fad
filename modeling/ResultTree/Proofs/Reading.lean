import Mathlib.Data.List.Forall2
import ResultTree.Fault

namespace ResultTree.Reading

/-! A reading has an answer or ends in a fault. What follows says when a reading
that is put together from others has one, so that a statement about an answer can
be taken apart into statements about the parts. -/

variable {α β : Type}

@[simp] theorem pure_eq_ok (answer : α) : (pure answer : Reading α) = .ok answer := rfl

@[simp] theorem throw_eq_error (fault : Fault) :
    (throw fault : Reading α) = .error fault := rfl

@[simp] theorem ok_bind (answer : α) (next : α → Reading β) :
    (Except.ok answer >>= next) = next answer := rfl

@[simp] theorem error_bind (fault : Fault) (next : α → Reading β) :
    ((Except.error fault : Reading α) >>= next) = .error fault := rfl

@[simp] theorem map_ok (change : α → β) (answer : α) :
    change <$> (Except.ok answer : Reading α) = .ok (change answer) := rfl

@[simp] theorem map_error (change : α → β) (fault : Fault) :
    change <$> (Except.error fault : Reading α) = .error fault := rfl

@[simp] theorem exceptMap_ok {ε : Type} (change : α → β) (answer : α) :
    Except.map change (.ok answer : Except ε α) = .ok (change answer) := rfl

@[simp] theorem exceptMap_error {ε : Type} (change : α → β) (error : ε) :
    Except.map change (.error error : Except ε α) = .error error := rfl

theorem ok_or_error (reading : Reading α) :
    (∃ answer, reading = .ok answer) ∨ ∃ fault, reading = .error fault := by
  cases reading <;> simp

theorem bind_eq_ok_iff {reading : Reading α} {next : α → Reading β} {answer : β} :
    reading >>= next = .ok answer ↔
      ∃ first, reading = .ok first ∧ next first = .ok answer := by
  cases reading <;> simp

theorem map_eq_ok_iff {change : α → β} {reading : Reading α} {answer : β} :
    change <$> reading = .ok answer ↔
      ∃ first, reading = .ok first ∧ change first = answer := by
  cases reading <;> simp

theorem bind_eq_error_iff {reading : Reading α} {next : α → Reading β} {fault : Fault} :
    reading >>= next = .error fault ↔
      reading = .error fault ∨ ∃ first, reading = .ok first ∧
        next first = .error fault := by
  cases reading <;> simp

theorem map_eq_error_iff {change : α → β} {reading : Reading α} {fault : Fault} :
    change <$> reading = .error fault ↔ reading = .error fault := by
  cases reading <;> simp

theorem bind_eq_map_bind {γ : Type} {reading : Reading α} {changed : α → Reading γ}
    {next : α → Reading β} {change : β → γ}
    (each : ∀ answer, reading = .ok answer → changed answer = change <$> next answer) :
    reading >>= changed = change <$> (reading >>= next) := by
  cases reading with
  | ok answer => exact each answer rfl
  | error fault => rfl

theorem mem_of_findM? {test : α → Reading Bool} {items : List α} {found : α}
    (searched : items.findM? test = .ok (some found)) : found ∈ items := by
  induction items with
  | nil => cases searched
  | cons item rest induction =>
      rcases bind_eq_ok_iff.mp searched with ⟨passed, _, searchedRest⟩
      cases passed with
      | true =>
          cases searchedRest
          simp
      | false => exact List.mem_cons_of_mem _ (induction searchedRest)

theorem foldlM_eq_error_iff {step : β → α → Reading β} {items : List α} {state : β}
    {fault : Fault} :
    items.foldlM step state = .error fault ↔
      ∃ before item after reached, items = before ++ item :: after ∧
        before.foldlM step state = .ok reached ∧ step reached item = .error fault := by
  induction items generalizing state with
  | nil => simp
  | cons first rest induction =>
      rw [List.foldlM_cons, bind_eq_error_iff]
      constructor
      · rintro (failed | ⟨next, taken, failed⟩)
        · exact ⟨[], first, rest, state, rfl, rfl, failed⟩
        · rcases induction.mp failed with
            ⟨before, item, after, reached, rfl, taken', failed⟩
          refine ⟨first :: before, item, after, reached, rfl, ?_, failed⟩
          rw [List.foldlM_cons, taken, ok_bind, taken']
      · rintro ⟨before, item, after, reached, same, taken, failed⟩
        cases before with
        | nil =>
            rcases List.cons.inj same with ⟨rfl, rfl⟩
            cases taken
            exact .inl failed
        | cons head before =>
            rcases List.cons.inj same with ⟨rfl, rfl⟩
            rw [List.foldlM_cons] at taken
            rcases bind_eq_ok_iff.mp taken with ⟨next, takenFirst, takenRest⟩
            exact .inr ⟨next, takenFirst,
              induction.mpr ⟨before, item, after, reached, rfl, takenRest, failed⟩⟩

theorem exists_filterMapM_ok {read : α → Reading (Option β)} {items : List α}
    (each : ∀ item ∈ items, ∃ answer, read item = .ok answer) :
    ∃ answers, items.filterMapM read = .ok answers := by
  induction items with
  | nil => exact ⟨[], rfl⟩
  | cons item rest induction =>
      rcases each item (by simp) with ⟨first, firstRead⟩
      rcases induction fun item member => each item (List.mem_cons_of_mem _ member) with
        ⟨others, othersRead⟩
      cases first <;> simp [List.filterMapM_cons, firstRead, othersRead]

theorem mapM_eq {read : α → Reading β} {answer : α → β} {items : List α}
    (each : ∀ item ∈ items, read item = .ok (answer item)) :
    items.mapM read = .ok (items.map answer) := by
  induction items with
  | nil => rfl
  | cons item rest induction =>
      have others := induction fun item member =>
        each item (List.mem_cons_of_mem _ member)
      simp [List.mapM_cons, each item (by simp), others]

theorem exists_mapM {read : α → Reading β} {items : List α}
    (each : ∀ item ∈ items, ∃ answer, read item = .ok answer) :
    ∃ answers, items.mapM read = .ok answers := by
  induction items with
  | nil => exact ⟨[], rfl⟩
  | cons item rest induction =>
      rcases each item (by simp) with ⟨first, firstRead⟩
      rcases induction fun item member => each item (List.mem_cons_of_mem _ member) with
        ⟨others, othersRead⟩
      exact ⟨first :: others, by simp [List.mapM_cons, firstRead, othersRead]⟩

theorem forall₂_of_mapM {read : α → Reading β} {items : List α} {answers : List β}
    (answered : items.mapM read = .ok answers) :
    List.Forall₂ (fun item answer => read item = .ok answer) items answers := by
  induction items generalizing answers with
  | nil =>
      cases answered
      exact .nil
  | cons item rest induction =>
      rw [List.mapM_cons] at answered
      rcases bind_eq_ok_iff.mp answered with ⟨first, firstRead, answered⟩
      rcases bind_eq_ok_iff.mp answered with ⟨others, othersRead, same⟩
      cases same
      exact .cons firstRead (induction othersRead)

theorem mapM_of_forall₂ {read : α → Reading β} {items : List α} {answers : List β}
    (both : List.Forall₂ (fun item answer => read item = .ok answer) items answers) :
    items.mapM read = .ok answers := by
  induction both with
  | nil => rfl
  | cons firstRead _ induction => simp [List.mapM_cons, firstRead, induction]

theorem mem_mapM_iff {read : α → Reading β} {items : List α} {answers : List β}
    (answered : items.mapM read = .ok answers) {answer : β} :
    answer ∈ answers ↔ ∃ item ∈ items, read item = .ok answer := by
  have both := forall₂_of_mapM answered
  clear answered
  induction both with
  | nil => simp
  | cons firstRead _ induction => simp [induction, firstRead, eq_comm]

theorem exists_mem_of_mapM {read : α → Reading β} {items : List α} {answers : List β}
    (answered : items.mapM read = .ok answers) {item : α} (member : item ∈ items) :
    ∃ answer ∈ answers, read item = .ok answer := by
  have both := forall₂_of_mapM answered
  clear answered
  induction both with
  | nil => cases member
  | cons firstRead _ induction =>
      rcases List.mem_cons.mp member with rfl | member
      · exact ⟨_, by simp, firstRead⟩
      · obtain ⟨answer, answerMember, told⟩ := induction member
        exact ⟨answer, List.mem_cons_of_mem _ answerMember, told⟩

theorem map_of_mapM {read : α → Reading β} {back : β → α} {items : List α}
    {answers : List β}
    (shown : ∀ item answer, read item = .ok answer → back answer = item)
    (answered : items.mapM read = .ok answers) : answers.map back = items := by
  have both := forall₂_of_mapM answered
  clear answered
  induction both with
  | nil => rfl
  | cons firstRead _ induction => rw [List.map_cons, shown _ _ firstRead, induction]

private theorem filterAuxM_eq {test : α → Reading Bool} {items : List α}
    (each : ∀ item ∈ items, ∃ passed, test item = .ok passed) (kept : List α) :
    items.filterAuxM test kept =
      .ok ((items.filter fun item => test item = .ok true).reverse ++ kept) := by
  induction items generalizing kept with
  | nil => rfl
  | cons item rest induction =>
      rcases each item (by simp) with ⟨passed, tested⟩
      have others := induction fun item member =>
        each item (List.mem_cons_of_mem _ member)
      cases passed <;> simp [List.filterAuxM, tested, others]

theorem filterM_eq {test : α → Reading Bool} {items : List α}
    (each : ∀ item ∈ items, ∃ passed, test item = .ok passed) :
    items.filterM test = .ok (items.filter fun item => test item = .ok true) := by
  simp [List.filterM, filterAuxM_eq each]

theorem filterMapM_eq_filterMap {read : α → Reading (Option β)} {answer : α → Option β}
    {items : List α} (each : ∀ item ∈ items, read item = .ok (answer item)) :
    items.filterMapM read = .ok (items.filterMap answer) := by
  induction items with
  | nil => rfl
  | cons item rest induction =>
      have others := induction fun item member =>
        each item (List.mem_cons_of_mem _ member)
      cases found :
        answer item <;> simp [List.filterMapM_cons, each item (by simp), found, others]

theorem filterMapM_eq {read : α → Reading (Option β)} {passes : α → Bool} {change : α → β}
    {items : List α}
    (each : ∀ item ∈ items,
      read item = .ok (if passes item then some (change item) else none)) :
    items.filterMapM read = .ok ((items.filter passes).map change) := by
  rw [filterMapM_eq_filterMap each, ← List.filterMap_eq_map, ← List.filterMap_eq_filter,
    List.filterMap_filterMap]
  congr 2
  funext item
  cases passed : passes item <;> simp [Option.guard, passed]

theorem anyM_eq {test : α → Reading Bool} {items : List α}
    (each : ∀ item ∈ items, ∃ passed, test item = .ok passed) :
    items.anyM test = .ok (items.any fun item => test item = .ok true) := by
  induction items with
  | nil => rfl
  | cons item rest induction =>
      have others := induction fun item member =>
        each item (List.mem_cons_of_mem _ member)
      rcases each item (by simp) with ⟨passed, tested⟩
      cases passed <;> simp [List.anyM, tested, others]

theorem exists_anyM {test : α → Reading Bool} {items : List α}
    (each : ∀ item ∈ items, ∃ passed, test item = .ok passed) :
    ∃ some, items.anyM test = .ok some :=
  ⟨_, anyM_eq each⟩

/-- What is taken step by step has an answer if an invariant lets every step have one
that keeps it. -/
theorem exists_foldlM {invariant : β → Prop} {step : β → α → Reading β} {items : List α}
    (each : ∀ state, invariant state → ∀ item ∈ items,
      ∃ next, step state item = .ok next ∧ invariant next)
    {state : β} (holds : invariant state) :
    ∃ reached, items.foldlM step state = .ok reached ∧ invariant reached := by
  induction items generalizing state with
  | nil => exact ⟨state, rfl, holds⟩
  | cons item rest induction =>
      rcases each state holds item (by simp) with ⟨next, taken, kept⟩
      rcases induction (fun state holds item member =>
        each state holds item (List.mem_cons_of_mem _ member)) kept with
        ⟨reached, others, kept⟩
      exact ⟨reached, by rw [List.foldlM_cons, taken, ok_bind, others], kept⟩

theorem holds_of_foldlM (invariant : β → Prop) {step : β → α → Reading β} {items : List α}
    (each : ∀ state next, ∀ item ∈ items, invariant state → step state item = .ok next →
      invariant next)
    {state reached : β} (holds : invariant state)
    (answered : items.foldlM step state = .ok reached) : invariant reached := by
  induction items generalizing state with
  | nil =>
      cases answered
      exact holds
  | cons item rest induction =>
      rw [List.foldlM_cons] at answered
      rcases bind_eq_ok_iff.mp answered with ⟨next, taken, others⟩
      exact induction (fun state next item member =>
        each state next item (List.mem_cons_of_mem _ member))
        (each state next item (by simp) holds taken) others

end ResultTree.Reading

namespace ResultTree.Attempt

/-! The same for a reading that may refuse. -/

variable {α β ε : Type}

theorem bind_eq_ok_iff {attempt : Attempt ε α} {next : α → Attempt ε β} {answer : β} :
    (attempt >>= next).run = .ok (.ok answer) ↔
      ∃ first, attempt.run = .ok (.ok first) ∧ (next first).run = .ok (.ok answer) := by
  rw [ExceptT.run_bind]
  rcases attempt.run with _ | _ | first <;> simp

@[simp] theorem run_read_bind (reading : Reading α) (next : α → Attempt ε β) :
    (liftM reading >>= next : Attempt ε β).run = reading >>= fun answer =>
      (next answer).run := by
  cases reading <;> rfl

theorem bind_eq_refusal_iff {attempt : Attempt ε α} {next : α → Attempt ε β}
    {refusal : ε} :
    (attempt >>= next).run = .ok (.error refusal) ↔
      attempt.run = .ok (.error refusal) ∨
        ∃ first, attempt.run = .ok (.ok first) ∧
          (next first).run = .ok (.error refusal) := by
  rw [ExceptT.run_bind]
  rcases attempt.run with _ | _ | first <;> simp

theorem adapt_eq_ok_iff {ε' : Type} {attempt : Attempt ε α} {change : ε → ε'}
    {answer : α} :
    (attempt.adapt change).run = .ok (.ok answer) ↔ attempt.run = .ok (.ok answer) := by
  change Except.mapError change <$> attempt.run = .ok (.ok answer) ↔ _
  rcases attempt.run with _ | _ | first <;> simp [Except.mapError]

theorem adapt_eq_refusal_iff {ε' : Type} {attempt : Attempt ε α} {change : ε → ε'}
    {refusal : ε'} :
    (attempt.adapt change).run = .ok (.error refusal) ↔
      ∃ cause, attempt.run = .ok (.error cause) ∧ change cause = refusal := by
  change Except.mapError change <$> attempt.run = .ok (.error refusal) ↔ _
  rcases attempt.run with _ | _ | first <;> simp [Except.mapError]

theorem read_eq_ok_iff {reading : Reading α} {answer : α} :
    (liftM reading : Attempt ε α).run = .ok (.ok answer) ↔ reading = .ok answer := by
  cases reading <;> simp [liftM, monadLift, MonadLift.monadLift, ExceptT.lift]

end ResultTree.Attempt
