import Mathlib.Data.List.Nodup

namespace ResultTree

/-! Lists from which is dropped what is met again. Each item stays where it was met
first. -/

variable {α : Type} [BEq α] [LawfulBEq α]

theorem eraseDups_filter (keep : α → Bool) (items : List α) :
    (items.filter keep).eraseDups = items.eraseDups.filter keep := by
  match items with
  | [] => rfl
  | first :: rest =>
      -- What goes on without the first item is shorter than the rest, but no tail of it.
      have others := eraseDups_filter keep (rest.filter fun other => !(other == first))
      rw [List.eraseDups_cons, List.filter_cons, List.filter_cons, ← others,
        List.filter_filter]
      cases kept : keep first with
      | true =>
          simp only [if_true, List.eraseDups_cons, List.filter_filter, Bool.and_comm]
      | false =>
          simp only [Bool.false_eq_true, if_false]
          congr 1
          apply List.filter_congr
          intro other _
          by_cases same : other = first <;> simp [same, kept]
termination_by items.length
decreasing_by
  have := List.length_filter_le (fun other => !(other == first)) rest
  simp only [List.length_cons]
  omega

theorem nodup_eraseDups (items : List α) : items.eraseDups.Nodup := by
  induction items with
  | nil => exact .nil
  | cons first rest induction =>
      rw [List.eraseDups_cons, eraseDups_filter]
      apply List.nodup_cons.mpr
      exact ⟨by simp, induction.filter _⟩

theorem eraseDups_of_nodup {items : List α} (nodup : items.Nodup) :
    items.eraseDups = items := by
  induction nodup with
  | nil => rfl
  | @cons first rest absent _ induction =>
      have others : rest.filter (fun other => !(other == first)) = rest := by
        apply List.filter_eq_self.mpr
        intro other member
        simpa using (absent other member).symm
      rw [List.eraseDups_cons, others, induction]

theorem eraseDups_append_singleton (items : List α) (item : α) :
    (items ++ [item]).eraseDups =
      if item ∈ items then items.eraseDups else items.eraseDups ++ [item] := by
  rw [List.eraseDups_append]
  by_cases member : item ∈ items <;> simp [List.removeAll, List.eraseDups_cons, member]

end ResultTree
