import Mathlib.Data.List.NodupEquivFin
import Mathlib.Data.List.Perm.Subperm
import ResultTree.Transform.Namespace

namespace ResultTree

/-! There always is a free prefix. The candidates are different from each other, and
there is one more of them than there are prefixes they must not be. -/

theorem toString_injective : Function.Injective (toString : Nat → String) := by
  intro left right same
  have digits : Nat.toDigits 10 left = Nat.toDigits 10 right := by
    rw [Nat.toString_eq_ofList_toDigits, Nat.toString_eq_ofList_toDigits] at same
    exact String.ofList_injective same
  rw [← Nat.ofDigitChars_toDigits (by decide : 1 < 10) (by decide) (n := left), digits,
    Nat.ofDigitChars_toDigits (by decide) (by decide)]

theorem prefixCandidate_injective (base : String) :
    Function.Injective (prefixCandidate base) := by
  have longer (number : Nat) : base ≠ base ++ toString number := by
    intro same
    have lengths := congrArg String.length same
    have digits : 0 < (toString number).length := by
      rw [Nat.toString_eq_ofList_toDigits, String.length_ofList]
      exact Nat.length_toDigits_pos
    rw [String.length_append] at lengths
    omega
  intro left right same
  match left, right with
  | 0, 0 => rfl
  | 0, number + 1 => exact absurd same (longer _)
  | number + 1, 0 => exact absurd same.symm (longer _)
  | left + 1, right + 1 =>
      exact toString_injective ((String.append_right_inj base).mp same)

theorem exists_freePrefix (taken : List (Option String)) (base : String) :
    ∃ nsPrefix, freePrefix? taken base = some nsPrefix := by
  unfold freePrefix?
  rw [← Option.isSome_iff_exists, List.find?_isSome]
  by_contra all
  simp only [not_exists, not_and, decide_eq_true_eq, not_not] at all
  generalize Binding.reservedPrefixes.map some ++ taken = excluded at all
  have subset : ((List.range (excluded.length + 1)).map (prefixCandidate base)).map some ⊆
      excluded := by
    intro candidate member
    rcases List.mem_map.mp member with ⟨text, textMember, rfl⟩
    exact all text textMember
  have different : (((List.range (excluded.length + 1)).map (prefixCandidate base)).map
      some).Nodup :=
    (List.nodup_range.map (prefixCandidate_injective base)).map (Option.some_injective _)
  have bound := (List.subperm_of_subset different subset).length_le
  simp only [List.length_map, List.length_range] at bound
  omega

variable {taken : List (Option String)} {base nsPrefix : String}

theorem not_mem_excluded_of_freePrefix (free : freePrefix? taken base = some nsPrefix) :
    some nsPrefix ∉ Binding.reservedPrefixes.map some ++ taken := by
  simpa using List.find?_some free

theorem not_reserved_of_freePrefix (free : freePrefix? taken base = some nsPrefix) :
    ∀ reserved ∈ Binding.reservedPrefixes, some nsPrefix ≠ some reserved := by
  intro reserved member same
  refine not_mem_excluded_of_freePrefix free (List.mem_append_left _ ?_)
  exact List.mem_map.mpr ⟨reserved, member, same.symm⟩

theorem first_of_freePrefix (free : freePrefix? taken base = some nsPrefix) :
    ∃ number, nsPrefix = prefixCandidate base number ∧ ∀ smaller < number,
      some (prefixCandidate base smaller) ∈ Binding.reservedPrefixes.map some ++
        taken := by
  rcases (List.find?_eq_some_iff_getElem.mp free).2 with ⟨number, _, same, earlier⟩
  refine ⟨number, by simpa using same.symm, fun smaller before => ?_⟩
  simpa using earlier smaller before

theorem exists_number_of_freePrefix (free : freePrefix? taken base = some nsPrefix) :
    ∃ number, nsPrefix = prefixCandidate base number :=
  (first_of_freePrefix free).imp fun _ first => first.1

end ResultTree
