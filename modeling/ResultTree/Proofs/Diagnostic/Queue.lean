import Mathlib.Data.Finset.Card
import ResultTree.Diagnostic.Queue

namespace ResultTree.Diagnostic

/-! What a queue comes to hold of the diagnostics that it is offered. It takes some
of them, in order. Whatever it drops, it never drops the only error: a limit is
reached only by errors that were taken, and what says the same as an error is one,
as long as codes tell errors from warnings. Without a limit, everything that was
said is said by something that was taken, and if duplicates are dropped only once. -/

/-! ## Errors and their codes -/

def Coded (diagnostic : Diagnostic) : Prop :=
  diagnostic.isError = !diagnostic.code.isWarning

structure Blames (diagnostic : Diagnostic) (node : NodeId) : Prop where
  error : diagnostic.isError = true
  coded : diagnostic.Coded
  place : diagnostic.primaryLabel?.map Label.node = some node
  declaration : diagnostic.code ≠ .notAStylesheet

theorem isError_eq_of_gist {left right : Diagnostic} (leftCoded : left.Coded)
    (rightCoded : right.Coded) (same : left.gist = right.gist) :
    left.isError = right.isError := by
  have codes : left.code = right.code := congrArg Prod.fst same
  rw [leftCoded, rightCoded, codes]

theorem Blames.node_eq_of_gist {left right : Diagnostic} {leftNode rightNode : NodeId}
    (leftBlames : left.Blames leftNode) (rightBlames : right.Blames rightNode)
    (same : left.gist = right.gist) : leftNode = rightNode := by
  have places := congrArg (fun gist => gist.2.1) same
  simp only [gist, leftBlames.place, rightBlames.place] at places
  exact Option.some.inj places

theorem blames_missingAliasAttribute (node : NodeId) (line : Nat) (name : String) :
    (missingAliasAttribute node line name).Blames node := by
  unfold missingAliasAttribute
  by_cases first : name = "stylesheet-prefix"
  · simp only [first, if_true]
    exact ⟨rfl, rfl, rfl, nofun⟩
  · simp only [first, if_false]
    exact ⟨rfl, rfl, rfl, nofun⟩

theorem blames_unboundPrefix {code : Code} (error : code.isWarning = false)
    (declaration : code ≠ .notAStylesheet) (node : NodeId) (line : Nat)
    (nsPrefix : String) :
    (unboundPrefix code node line nsPrefix).Blames node := by
  constructor
  · rfl
  · exact congrArg (!·) error.symm
  · rfl
  · exact declaration

theorem blames_missingKeyAttribute (node : NodeId) (line : Nat) (name : String) :
    (missingKeyAttribute node line name).Blames node :=
  ⟨rfl, rfl, rfl, nofun⟩

theorem blames_invalidKeyExpression (node : NodeId) (line : Nat) (isMatch : Bool)
    (source reason : String) :
    (invalidKeyExpression node line isMatch source reason).Blames node := by
  cases isMatch <;> exact ⟨rfl, rfl, rfl, nofun⟩

/-! ## Sorting -/

/-- Sorting keeps an earlier item before a later one, unless the later one belongs
strictly before it. So sorting fewer items gives fewer of the sorted items. -/
theorem mergeSort_sublist {α : Type} {atMost : α → α → Bool}
    (trans : ∀ a b c, atMost a b → atMost b c → atMost a c)
    (total : ∀ a b, atMost a b || atMost b a) {short long : List α}
    (sublist : short.Sublist long) :
    (short.mergeSort atMost).Sublist (long.mergeSort atMost) := by
  induction sublist with
  | slnil => simp
  | @cons short long item _ induction =>
      obtain ⟨before, after, sorted, rest, _⟩ := List.mergeSort_cons trans total item long
      rw [sorted]
      rw [rest] at induction
      exact induction.trans
        ((List.Sublist.refl before).append (List.sublist_cons_self item after))
  | @cons_cons short long item _ induction =>
      obtain ⟨before, after, sorted, rest, earlier⟩ :=
        List.mergeSort_cons trans total item short
      obtain ⟨beforeLong, afterLong, sortedLong, restLong, earlierLong⟩ :=
        List.mergeSort_cons trans total item long
      -- Both sorted lists divide at the place of the item.
      have divided {items front back : List α}
          (shown : items.mergeSort atMost = front ++ back)
          (whole : (item :: items).mergeSort atMost = front ++ item :: back)
          (strict : ∀ other ∈ front, !atMost item other) :
          front = (items.mergeSort atMost).filter (fun other => !atMost item other) ∧
            back = (items.mergeSort atMost).filter (atMost item) := by
        have ordered := List.pairwise_mergeSort trans total (item :: items)
        rw [whole] at ordered
        have later := (List.pairwise_cons.mp (List.pairwise_append.mp ordered).2.1).1
        have noneBack : back.filter (fun other => !atMost item other) = [] := by
          simpa using later
        have noneFront : front.filter (atMost item) = [] := by simpa using strict
        rw [shown, List.filter_append, List.filter_append, noneBack, noneFront,
          List.filter_eq_self.mpr strict, List.filter_eq_self.mpr later]
        simp
      obtain ⟨front, back⟩ := divided rest sorted earlier
      obtain ⟨frontLong, backLong⟩ := divided restLong sortedLong earlierLong
      rw [sorted, sortedLong, front, back, frontLong, backLong]
      exact (induction.filter _).append ((induction.filter _).cons_cons item)

namespace Queue

variable {queue : Queue} {diagnostic : Diagnostic} {offered : List Diagnostic}

theorem flush_perm : queue.flush.1.Perm queue.entries := List.mergeSort_perm _ _

theorem line_le_trans (first second third : Diagnostic)
    (before : decide (first.line ≤ second.line) = true)
    (after : decide (second.line ≤ third.line) = true) :
    decide (first.line ≤ third.line) = true := by
  simp only [decide_eq_true_eq] at before after ⊢
  exact before.trans after

theorem line_le_total (left right : Diagnostic) :
    (decide (left.line ≤ right.line) || decide (right.line ≤ left.line)) = true := by
  simpa using Nat.le_total left.line right.line

theorem flush_sublist {other : Queue} (sublist : queue.entries.Sublist other.entries) :
    queue.flush.1.Sublist other.flush.1 :=
  mergeSort_sublist line_le_trans line_le_total sublist

/-! ## What is taken -/

@[simp] theorem addAll_nil : queue.addAll [] = queue := rfl

theorem addAll_cons :
    queue.addAll (diagnostic :: offered) = (queue.add diagnostic).2.addAll offered :=
  rfl

theorem addAll_append (more : List Diagnostic) :
    queue.addAll (offered ++ more) = (queue.addAll offered).addAll more := by
  simp [addAll, List.foldl_append]

/-- Counting errors and remembering what was said is as good as looking at what is
held. -/
theorem drops_iff : queue.drops diagnostic = true ↔
    diagnostic.isError = true ∧ 0 < queue.config.errorLimit ∧
        queue.config.errorLimit ≤ queue.entries.countP Diagnostic.isError ∨
      queue.config.deduplicate = true ∧
      ∃ taken ∈ queue.entries, taken.gist = diagnostic.gist := by
  simp only [drops, limitReached, queue.counted, gt_iff_lt, ge_iff_le, Bool.or_eq_true,
    Bool.and_eq_true, decide_eq_true_eq]
  refine or_congr_right (and_congr_right fun deduplicates => ?_)
  rw [queue.remembered, if_pos deduplicates, List.contains_iff_mem, List.mem_map]

theorem add_cases :
    queue.drops diagnostic = true ∧ (queue.add diagnostic).2 = queue ∨
      queue.drops diagnostic = false ∧
      (queue.add diagnostic).2 = queue.take diagnostic := by
  unfold add
  cases queue.drops diagnostic <;> simp

@[simp] theorem config_add : (queue.add diagnostic).2.config = queue.config := by
  rcases @add_cases queue diagnostic with ⟨_, same⟩ | ⟨_, same⟩ <;> simp [same]

@[simp] theorem config_addAll : (queue.addAll offered).config = queue.config := by
  induction offered generalizing queue with
  | nil => rfl
  | cons first rest induction => rw [addAll_cons, induction, config_add]

theorem entries_addAll : ∃ taken, taken.Sublist offered ∧
    (queue.addAll offered).entries = queue.entries ++ taken := by
  induction offered generalizing queue with
  | nil => exact ⟨[], by simp⟩
  | cons first rest induction =>
      obtain ⟨taken, sublist, held⟩ := @induction (queue.add first).2
      rw [addAll_cons, held]
      rcases @add_cases queue first with ⟨_, same⟩ | ⟨_, same⟩
      · exact ⟨taken, sublist.cons first, by rw [same]⟩
      · exact ⟨first :: taken, sublist.cons_cons first, by simp [same]⟩

theorem entries_addAll_unlimited (unlimited : queue.config = .unlimited) :
    (queue.addAll offered).entries = queue.entries ++ offered := by
  induction offered generalizing queue with
  | nil => simp
  | cons first rest induction =>
      have taken : (queue.add first).2.entries = queue.entries ++ [first] := by
        simp [add, drops, limitReached, unlimited, Config.unlimited, entries_take]
      rw [addAll_cons, induction (config_add.trans unlimited), taken, List.append_assoc]
      rfl

/-! ## Errors are never all dropped -/

theorem any_isError_add (coded : ∀ taken ∈ queue.entries, taken.Coded)
    (offeredCoded : diagnostic.Coded) :
    (queue.add diagnostic).2.entries.any Diagnostic.isError =
      (queue.entries.any Diagnostic.isError || diagnostic.isError) := by
  rcases @add_cases queue diagnostic with ⟨dropped, same⟩ | ⟨_, same⟩
  · rw [same]
    by_cases error : diagnostic.isError = true
    · -- Whatever makes a queue drop an error, it holds one.
      have held : queue.entries.any Diagnostic.isError = true := by
        rcases drops_iff.mp dropped with ⟨_, limited, enough⟩ | ⟨_, taken, member, said⟩
        · have reached : 0 < queue.entries.countP Diagnostic.isError :=
            Nat.lt_of_lt_of_le limited enough
          simpa using List.countP_pos_iff.mp reached
        · rw [List.any_eq_true]
          exact ⟨taken, member, (isError_eq_of_gist (coded taken member) offeredCoded
            said).trans error⟩
      rw [held, Bool.true_or]
    · simp [error]
  · simp [same]

theorem coded_add (coded : ∀ taken ∈ queue.entries, taken.Coded)
    (offeredCoded : diagnostic.Coded) :
    ∀ taken ∈ (queue.add diagnostic).2.entries, taken.Coded := by
  rcases @add_cases queue diagnostic with ⟨_, same⟩ | ⟨_, same⟩
  · rwa [same]
  · intro taken member
    rw [same] at member
    rcases List.mem_append.mp member with member | member
    · exact coded taken member
    · rwa [List.mem_singleton.mp member]

theorem any_isError_addAll (coded : ∀ taken ∈ queue.entries, taken.Coded)
    (offeredCoded : ∀ diagnostic ∈ offered, diagnostic.Coded) :
    (queue.addAll offered).entries.any Diagnostic.isError =
      (queue.entries.any Diagnostic.isError || offered.any Diagnostic.isError) := by
  induction offered generalizing queue with
  | nil => simp
  | cons first rest induction =>
      obtain ⟨firstCoded, restCoded⟩ := List.forall_mem_cons.mp offeredCoded
      rw [addAll_cons, induction (coded_add coded firstCoded) restCoded,
        any_isError_add coded firstCoded, List.any_cons, Bool.or_assoc]

/-! ## A queue without a limit -/

theorem mem_gists_addAll (limitless : queue.config.errorLimit = 0)
    {gist : Gist} :
    gist ∈ (queue.addAll offered).entries.map Diagnostic.gist ↔
      gist ∈ queue.entries.map Diagnostic.gist ∨ gist ∈ offered.map Diagnostic.gist := by
  induction offered generalizing queue with
  | nil => simp
  | cons first rest induction =>
      rw [addAll_cons, induction (by rw [config_add, limitless])]
      rcases @add_cases queue first with ⟨dropped, same⟩ | ⟨_, same⟩
      · -- What is dropped was said before.
        have said : first.gist ∈ queue.entries.map Diagnostic.gist := by
          rcases drops_iff.mp dropped with ⟨_, limited, _⟩ | ⟨_, taken, member, equal⟩
          · simp [limitless] at limited
          · exact List.mem_map.mpr ⟨taken, member, equal⟩
        rw [same, List.map_cons, List.mem_cons]
        constructor
        · rintro (member | member)
          · exact .inl member
          · exact .inr (.inr member)
        · rintro (member | equal | member)
          · exact .inl member
          · exact .inl (equal ▸ said)
          · exact .inr member
      · rw [same, entries_take, List.map_append, List.map_singleton, List.mem_append,
          List.mem_singleton, List.map_cons, List.mem_cons, or_assoc]

theorem nodup_gists_addAll (deduplicates : queue.config.deduplicate = true)
    (once : (queue.entries.map Diagnostic.gist).Nodup) :
    ((queue.addAll offered).entries.map Diagnostic.gist).Nodup := by
  induction offered generalizing queue with
  | nil => exact once
  | cons first rest induction =>
      rw [addAll_cons]
      apply induction (by rwa [config_add])
      rcases @add_cases queue first with ⟨_, same⟩ | ⟨kept, same⟩
      · rwa [same]
      · have unsaid : first.gist ∉ queue.entries.map Diagnostic.gist := fun said =>
          absurd (drops_iff.mpr (.inr ⟨deduplicates, List.mem_map.mp said⟩))
            (by simp [kept])
        rw [same, entries_take, List.map_append, List.map_singleton]
        exact once.append (List.nodup_singleton _) (List.disjoint_singleton.mpr unsaid)

/-- The errors that are taken are the different things that errors say. -/
theorem countP_isError_addAll (limitless : queue.config.errorLimit = 0)
    (deduplicates : queue.config.deduplicate = true) (started : queue.entries = [])
    (coded : ∀ diagnostic ∈ offered, diagnostic.Coded) :
    (queue.addAll offered).entries.countP Diagnostic.isError =
      ((offered.filter Diagnostic.isError).map Diagnostic.gist).toFinset.card := by
  have once : ((queue.addAll offered).entries.map Diagnostic.gist).Nodup :=
    nodup_gists_addAll deduplicates (by simp [started])
  obtain ⟨taken, sublist, held⟩ := @entries_addAll queue offered
  rw [started, List.nil_append] at held
  have errorsOnce :=
    once.sublist ((List.filter_sublist (p := Diagnostic.isError)).map gist)
  have saidAlike :
      (((queue.addAll offered).entries.filter Diagnostic.isError).map gist).toFinset =
        ((offered.filter Diagnostic.isError).map gist).toFinset := by
    ext said
    simp only [List.mem_toFinset, List.mem_map, List.mem_filter]
    constructor
    · rintro ⟨diagnostic, ⟨member, error⟩, rfl⟩
      exact ⟨diagnostic, ⟨sublist.subset (held ▸ member), error⟩, rfl⟩
    · rintro ⟨diagnostic, ⟨member, error⟩, rfl⟩
      have said := (mem_gists_addAll limitless).mpr (.inr (List.mem_map_of_mem member))
      obtain ⟨other, otherMember, same⟩ := List.mem_map.mp said
      have otherCoded := coded other (sublist.subset (held ▸ otherMember))
      have alike := isError_eq_of_gist otherCoded (coded diagnostic member) same
      exact ⟨other, ⟨otherMember, alike.trans error⟩, same⟩
  rw [List.countP_eq_length_filter, ← List.length_map (f := gist),
    ← List.toFinset_card_of_nodup errorsOnce, saidAlike]

end Queue

end ResultTree.Diagnostic
