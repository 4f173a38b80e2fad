namespace ResultTree

/-! A finite map that lists its keys in the order in which they were first
bound. Alias tables, key definitions and key indexes are all maps of this kind.
Because the order is determined by the history alone, two runs that bind the
same keys in the same order give equal values, not merely equivalent ones. -/

/-- Bindings in the order of their first appearance, one for each key. -/
structure OrderedMap (κ : Type u) (β : Type v) where
  entries : List (κ × β)
  distinct : (entries.map Prod.fst).Nodup
deriving DecidableEq

namespace OrderedMap

variable {κ : Type u} {β : Type v}

def empty : OrderedMap κ β where
  entries := []
  distinct := .nil

instance : EmptyCollection (OrderedMap κ β) := ⟨empty⟩

instance : Inhabited (OrderedMap κ β) := ⟨empty⟩

instance [Repr κ] [Repr β] : Repr (OrderedMap κ β) where
  reprPrec map precedence := reprPrec map.entries precedence

def size (map : OrderedMap κ β) : Nat := map.entries.length

def isEmpty (map : OrderedMap κ β) : Bool := map.entries.isEmpty

def keys (map : OrderedMap κ β) : List κ := map.entries.map Prod.fst

variable [DecidableEq κ]

def get? (map : OrderedMap κ β) (key : κ) : Option β := map.entries.lookup key

private def rebind (key : κ) (change : Option β → β) :
    List (κ × β) → List (κ × β)
  | [] => [(key, change none)]
  | (other, value) :: rest =>
      if other = key then (other, change (some value)) :: rest
      else (other, value) :: rebind key change rest

private theorem keys_rebind (key : κ) (change : Option β → β)
    (entries : List (κ × β)) :
    (rebind key change entries).map Prod.fst =
      if key ∈ entries.map Prod.fst then entries.map Prod.fst
      else entries.map Prod.fst ++ [key] := by
  induction entries with
  | nil => simp [rebind]
  | cons head rest induction =>
      obtain ⟨other, value⟩ := head
      by_cases equal : other = key
      · simp [rebind, equal]
      · have different : key ≠ other := fun same => equal same.symm
        simp only [rebind, equal, if_false, List.map_cons, induction, List.mem_cons,
          different, false_or]
        split <;> simp

def update (map : OrderedMap κ β) (key : κ) (change : Option β → β) :
    OrderedMap κ β where
  entries := rebind key change map.entries
  distinct := by
    rw [keys_rebind]
    split
    · exact map.distinct
    · next absent =>
        refine List.nodup_append.mpr ⟨map.distinct, by simp, ?_⟩
        intro left leftMember right rightMember equal
        simp only [List.mem_singleton] at rightMember
        subst rightMember
        exact absent (equal ▸ leftMember)

def insert (map : OrderedMap κ β) (key : κ) (value : β) : OrderedMap κ β :=
  map.update key fun _ => value

/-- Two maps bind the same keys to the same values, in whatever order. -/
def sameBindings [DecidableEq β] (left right : OrderedMap κ β) : Bool :=
  left.size == right.size &&
    left.entries.all fun (key, value) => right.get? key == some value

theorem keys_update (map : OrderedMap κ β) (key : κ) (change : Option β → β) :
    (map.update key change).keys =
      if key ∈ map.keys then map.keys else map.keys ++ [key] :=
  keys_rebind key change map.entries

private theorem lookup_rebind_same (key : κ) (change : Option β → β)
    (entries : List (κ × β)) :
    (rebind key change entries).lookup key = some (change (entries.lookup key)) := by
  induction entries with
  | nil => simp [rebind]
  | cons head rest induction =>
      obtain ⟨other, value⟩ := head
      by_cases equal : other = key
      · simp [rebind, equal]
      · have different : (key == other) = false := by
          simpa using fun same : key = other => equal same.symm
        simp [rebind, equal, List.lookup_cons, different, induction]

private theorem lookup_rebind_other {key other : κ} (different : other ≠ key)
    (change : Option β → β) (entries : List (κ × β)) :
    (rebind key change entries).lookup other = entries.lookup other := by
  induction entries with
  | nil =>
      have unequal : (other == key) = false := by simpa using different
      simp [rebind, List.lookup_cons, unequal]
  | cons head rest induction =>
      obtain ⟨first, value⟩ := head
      by_cases equal : first = key
      · have unequal : (other == first) = false := by simpa [equal] using different
        simp [rebind, equal, List.lookup_cons, equal ▸ unequal]
      · simp [rebind, equal, List.lookup_cons, induction]

@[simp] theorem get?_update_same (map : OrderedMap κ β) (key : κ)
    (change : Option β → β) :
    (map.update key change).get? key = some (change (map.get? key)) :=
  lookup_rebind_same key change map.entries

theorem get?_update_other (map : OrderedMap κ β) {key other : κ}
    (different : other ≠ key) (change : Option β → β) :
    (map.update key change).get? other = map.get? other :=
  lookup_rebind_other different change map.entries

@[simp] theorem get?_empty (key : κ) : (empty : OrderedMap κ β).get? key = none := rfl

end OrderedMap

end ResultTree
