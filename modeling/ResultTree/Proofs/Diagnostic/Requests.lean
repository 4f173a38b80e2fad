import ResultTree.Proofs.Diagnostic.Queue

namespace ResultTree.Diagnostic

/-! What a queue does in the course of its use, told from what it was asked for alone.
Whether a diagnostic is taken depends on those that were taken since the last flush. The
count of errors and the memory of what was said never come to differ from them, whatever
is dropped and whenever the queue is flushed. -/

inductive Request
  | add (diagnostic : Diagnostic)
  | flush
deriving DecidableEq, Repr

namespace Config

/-- A diagnostic may be taken after some others. An error may not if they have as many
errors as the limit allows, and nothing may that has code, primary node and message in
common with one of them, if duplicates are dropped. -/
structure Admits (config : Config) (taken : List Diagnostic) (offered : Diagnostic) :
    Prop where
  withinLimit : offered.isError = true → 0 < config.errorLimit →
    taken.countP Diagnostic.isError < config.errorLimit
  unsaid : config.deduplicate = true → ∀ earlier ∈ taken,
    ¬ (earlier.code = offered.code ∧
      earlier.primaryLabel?.map Label.node = offered.primaryLabel?.map Label.node ∧
      earlier.message = offered.message)

instance (config : Config) (taken : List Diagnostic) (offered : Diagnostic) :
    Decidable (config.Admits taken offered) :=
  decidable_of_iff
    ((offered.isError = true → 0 < config.errorLimit →
        taken.countP Diagnostic.isError < config.errorLimit) ∧
      (config.deduplicate = true → ∀ earlier ∈ taken,
        ¬ (earlier.code = offered.code ∧
          earlier.primaryLabel?.map Label.node = offered.primaryLabel?.map Label.node ∧
          earlier.message = offered.message)))
    ⟨fun ⟨withinLimit, unsaid⟩ => ⟨withinLimit, unsaid⟩,
      fun ⟨withinLimit, unsaid⟩ => ⟨withinLimit, unsaid⟩⟩

def step (config : Config) (taken : List Diagnostic) : Request → List Diagnostic
  | .add diagnostic =>
      if config.Admits taken diagnostic then taken ++ [diagnostic] else taken
  | .flush => []

def taken (config : Config) (requests : List Request) : List Diagnostic :=
  requests.foldl config.step []

variable {config : Config}

theorem countP_step_le (limited : 0 < config.errorLimit) {taken : List Diagnostic}
    (within : taken.countP Diagnostic.isError ≤ config.errorLimit) (request : Request) :
    (config.step taken request).countP Diagnostic.isError ≤ config.errorLimit := by
  cases request with
  | flush => exact Nat.zero_le _
  | add diagnostic =>
      simp only [step]
      split
      · next admits =>
          rw [List.countP_append, List.countP_singleton]
          split
          · next error => exact admits.withinLimit error limited
          · exact within
      · exact within

theorem countP_taken_le (limited : 0 < config.errorLimit) (requests : List Request) :
    (config.taken requests).countP Diagnostic.isError ≤ config.errorLimit :=
  List.foldlRecOn requests config.step
    (motive := fun taken => taken.countP Diagnostic.isError ≤ config.errorLimit)
    (Nat.zero_le _) fun _ within request _ => countP_step_le limited within request

end Config

namespace Queue

def perform (queue : Queue) : Request → Queue
  | .add diagnostic => (queue.add diagnostic).2
  | .flush => queue.flush.2

def after (config : Config) (requests : List Request) : Queue :=
  requests.foldl perform { config }

variable {queue : Queue} {diagnostic : Diagnostic}

/-! ## One request -/

theorem gist_eq_iff {left right : Diagnostic} : left.gist = right.gist ↔
    left.code = right.code ∧
      left.primaryLabel?.map Label.node = right.primaryLabel?.map Label.node ∧
      left.message = right.message := by
  simp [gist]

theorem drops_eq_false_iff :
    queue.drops diagnostic = false ↔ queue.config.Admits queue.entries diagnostic := by
  rw [← Bool.not_eq_true, drops_iff, not_or]
  constructor
  · rintro ⟨limited, unsaid⟩
    refine ⟨fun error limit => ?_, fun deduplicates earlier member same => ?_⟩
    · exact Nat.lt_of_not_le fun reached => limited ⟨error, limit, reached⟩
    · exact unsaid ⟨deduplicates, earlier, member, gist_eq_iff.mpr same⟩
  · intro admits
    refine ⟨?_, ?_⟩
    · rintro ⟨error, limit, reached⟩
      exact Nat.not_lt_of_le reached (admits.withinLimit error limit)
    · rintro ⟨deduplicates, earlier, member, same⟩
      exact admits.unsaid deduplicates earlier member (gist_eq_iff.mp same)

theorem add_eq_true_iff :
    (queue.add diagnostic).1 = true ↔ queue.config.Admits queue.entries diagnostic := by
  rw [← drops_eq_false_iff]
  unfold add
  cases queue.drops diagnostic <;> simp

theorem add_of_rejected (rejected : (queue.add diagnostic).1 = false) :
    (queue.add diagnostic).2 = queue := by
  rcases @add_cases queue diagnostic with ⟨_, same⟩ | ⟨kept, _⟩
  · exact same
  · simp [add, kept] at rejected

@[simp] theorem config_perform (request : Request) :
    (queue.perform request).config = queue.config := by
  cases request with
  | add diagnostic => exact config_add
  | flush => rfl

theorem entries_perform (request : Request) :
    (queue.perform request).entries = queue.config.step queue.entries request := by
  cases request with
  | flush => rfl
  | add diagnostic =>
      rw [perform, Config.step]
      rcases @add_cases queue diagnostic with ⟨dropped, same⟩ | ⟨kept, same⟩
      · have refused : ¬ queue.config.Admits queue.entries diagnostic := fun admits => by
          simp [drops_eq_false_iff.mpr admits] at dropped
        rw [if_neg refused, same]
      · rw [if_pos (drops_eq_false_iff.mp kept), same, entries_take]

/-! ## All requests -/

theorem config_entries_after (config : Config) (requests : List Request) :
    (after config requests).config = config ∧
      (after config requests).entries = config.taken requests := by
  induction requests using List.reverseRecOn with
  | nil => exact ⟨rfl, rfl⟩
  | append_singleton requests request induction =>
      have stepped : after config (requests ++ [request]) =
          (after config requests).perform request := by
        simp [after, List.foldl_append]
      rw [stepped, config_perform, entries_perform, induction.1, induction.2,
        Config.taken, Config.taken, List.foldl_append]
      exact ⟨rfl, rfl⟩

/-! ## Flushing -/

theorem pairwise_flush :
    queue.flush.1.Pairwise fun left right => left.line ≤ right.line := by
  have sorted := List.pairwise_mergeSort line_le_trans line_le_total queue.entries
  simp only [decide_eq_true_eq] at sorted
  exact sorted

theorem filter_flush (line : Nat) :
    queue.flush.1.filter (fun diagnostic => diagnostic.line = line) =
      queue.entries.filter fun diagnostic => diagnostic.line = line := by
  have ordered : (queue.entries.filter fun diagnostic => diagnostic.line = line).Pairwise
      fun left right => decide (left.line ≤ right.line) = true := by
    refine List.pairwise_of_forall_mem_list fun left leftMember right rightMember => ?_
    simp only [List.mem_filter, decide_eq_true_eq] at leftMember rightMember ⊢
    exact (leftMember.2.trans rightMember.2.symm).le
  -- A stable sort keeps them in order, and it loses none of them.
  have kept :=
    List.sublist_mergeSort line_le_trans line_le_total ordered List.filter_sublist
  have sublist := kept.filter fun diagnostic => diagnostic.line = line
  rw [List.filter_filter] at sublist
  simp only [Bool.and_self] at sublist
  exact (sublist.eq_of_length (queue.flush_perm.filter _).length_eq.symm).symm

theorem flush_leaves {config : Config} (configured : queue.config = config) :
    queue.flush.2 = { config } := by
  subst configured
  rfl

/-! ## What a queue shows -/

/-- Everything that a queue shows, told from its configuration and the diagnostics that
it has taken since the last flush. -/
structure Reflects (queue : Queue) (config : Config) (taken : List Diagnostic) :
    Prop where
  entries : queue.entries = taken
  count : queue.errorCount = taken.countP Diagnostic.isError
  withinLimit : 0 < config.errorLimit → queue.errorCount ≤ config.errorLimit
  accepts (diagnostic : Diagnostic) :
    (queue.add diagnostic).1 = true ↔ config.Admits taken diagnostic
  rejects (diagnostic : Diagnostic) :
    (queue.add diagnostic).1 = false → (queue.add diagnostic).2 = queue
  handsOver : queue.flush.1.Perm taken
  byLine : queue.flush.1.Pairwise fun left right => left.line ≤ right.line
  stable (line : Nat) :
    queue.flush.1.filter (fun diagnostic => diagnostic.line = line) =
      taken.filter fun diagnostic => diagnostic.line = line
  startsOver : queue.flush.2 = { config }

/-- After any requests, a queue shows what the diagnostics say that a filter, which
remembers nothing but what it took, takes of the same requests. -/
theorem reflects_after (config : Config) (requests : List Request) :
    (after config requests).Reflects config (config.taken requests) := by
  obtain ⟨configured, holds⟩ := config_entries_after config requests
  constructor
  case entries => exact holds
  case count => rw [(after config requests).counted, holds]
  case withinLimit =>
    intro limited
    rw [(after config requests).counted, holds]
    exact Config.countP_taken_le limited requests
  case accepts =>
    intro diagnostic
    rw [add_eq_true_iff, configured, holds]
  case rejects => exact fun diagnostic rejected => add_of_rejected rejected
  case handsOver => exact holds ▸ flush_perm
  case byLine => exact pairwise_flush
  case stable =>
    intro line
    rw [filter_flush, holds]
  case startsOver => exact flush_leaves configured

/-- An error that is one too many is dropped and not remembered: it is taken after a
flush. A warning is taken in spite of the limit, but only once. -/
example :
    let first := missingKeyAttribute 1 0 "use"
    let second := missingKeyAttribute 2 0 "use"
    let warning : Diagnostic := { first with severity := .warning, message := "other" }
    Config.taken ⟨1, true⟩ [.add first, .add second, .add warning, .add warning] =
        [first, warning] ∧
      Config.taken ⟨1, true⟩ [.add first, .add second, .flush, .add second] =
        [second] := by
  decide

end Queue

end ResultTree.Diagnostic
