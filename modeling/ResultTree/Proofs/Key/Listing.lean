import Mathlib.Data.Finset.Card
import ResultTree.Key.Index
import ResultTree.Proofs.Key.Steps

namespace ResultTree.Key

/-! What an index lists. A node is listed under a value at once for all that it has
to be listed there, so that looking at the last node of a list keeps every node from
being listed twice, as long as no node is visited twice. -/

def Definition.Gives (definition : Definition) (document : Document) (id : NodeId)
    (value : String) : Prop :=
  definition.accepts document id = .ok true ∧
    ∃ values, definition.values document id = .ok values ∧ value ∈ values

structure Listed (definitions : List Definition) (document : Document) (value : String)
    (id : NodeId) : Prop where
  attached : document.Attached id
  notRoot : id ≠ Document.root
  given : ∃ definition ∈ definitions, definition.Gives document id value

namespace Index

def postAll (index : Index) (posting : NodeId × List String) : Index :=
  posting.2.foldl (fun index value => index.post value posting.1) index

theorem ofPostings_append_singleton (postings : List (NodeId × List String))
    (posting : NodeId × List String) :
    ofPostings (postings ++ [posting]) = (ofPostings postings).postAll posting := by
  simp [ofPostings, postAll, List.foldl_append]

variable {index : Index} {id : NodeId} {value : String} {values : List String}

/-! ## One node under one value -/

theorem get_post_same :
    (index.post value id).get value =
      if (index.get value).getLast? = some id then index.get value
      else index.get value ++ [id] := by
  simp only [get, post, OrderedMap.get?_update_same, Option.getD_some,
    Array.getLast?_toList]
  split <;> simp

theorem get_post_other {other : String} (different : other ≠ value) :
    (index.post value id).get other = index.get other := by
  simp [get, post, OrderedMap.get?_update_other _ different]

theorem mem_keys_post {other : String} :
    other ∈ (index.post value id).entries.keys ↔
      other ∈ index.entries.keys ∨ other = value := by
  rw [post, OrderedMap.keys_update]
  split <;> aesop

/-! ## One node under all of its values -/

theorem get_postAll_of_last (last : (index.get value).getLast? = some id) :
    (index.postAll (id, values)).get value = index.get value := by
  induction values generalizing index with
  | nil => rfl
  | cons first rest induction =>
      have kept : (index.post first id).get value = index.get value := by
        by_cases same : value = first
        · rw [← same, get_post_same, if_pos last]
        · exact get_post_other same
      exact (induction (kept ▸ last)).trans kept

theorem get_postAll (fresh : id ∉ index.get value) :
    (index.postAll (id, values)).get value =
      if value ∈ values then index.get value ++ [id] else index.get value := by
  induction values generalizing index with
  | nil => rfl
  | cons first rest induction =>
      change ((index.post first id).postAll (id, rest)).get value = _
      by_cases same : value = first
      · have notLast : (index.get value).getLast? ≠ some id := fun last =>
          fresh (List.mem_of_getLast? last)
        have listed : (index.post first id).get value = index.get value ++ [id] := by
          rw [← same, get_post_same, if_neg notLast]
        rw [get_postAll_of_last (by simp [listed]), listed, if_pos (by simp [same])]
      · have kept : (index.post first id).get value = index.get value :=
          get_post_other same
        rw [induction (kept ▸ fresh), kept]
        simp [same]

theorem mem_keys_postAll :
    value ∈ (index.postAll (id, values)).entries.keys ↔
      value ∈ index.entries.keys ∨ value ∈ values := by
  induction values generalizing index with
  | nil => simp [postAll]
  | cons first rest induction =>
      change value ∈ ((index.post first id).postAll (id, rest)).entries.keys ↔ _
      rw [induction, mem_keys_post, List.mem_cons, or_assoc]

/-! ## All nodes -/

theorem get_ofPostings {postings : List (NodeId × List String)}
    (once : (postings.map Prod.fst).Nodup) :
    (ofPostings postings).get value =
      (postings.filter fun posting => value ∈ posting.2).map Prod.fst := by
  induction postings using List.reverseRecOn with
  | nil => rfl
  | append_singleton postings posting induction =>
      rw [List.map_append, List.nodup_append] at once
      rcases once with ⟨before, _, apart⟩
      have fresh : posting.1 ∉ (ofPostings postings).get value := by
        intro member
        rw [induction before] at member
        rcases List.mem_map.mp member with ⟨other, otherMember, same⟩
        exact apart other.1 (List.mem_map_of_mem (List.mem_of_mem_filter otherMember))
          posting.1 (by simp) same
      rw [ofPostings_append_singleton, get_postAll fresh, induction before]
      by_cases has : value ∈ posting.2 <;> simp [has]

theorem mem_keys_ofPostings {postings : List (NodeId × List String)} :
    value ∈ (ofPostings postings).entries.keys ↔
      ∃ posting ∈ postings, value ∈ posting.2 := by
  induction postings using List.reverseRecOn with
  | nil => simp [ofPostings, Index.empty, OrderedMap.keys, OrderedMap.empty]
  | append_singleton postings posting induction =>
      rw [ofPostings_append_singleton, mem_keys_postAll, induction]
      simp [or_and_right, exists_or]

theorem size_eq_card : index.size = index.entries.keys.toFinset.card := by
  have distinct : index.entries.keys.Nodup := index.entries.distinct
  rw [List.toFinset_card_of_nodup distinct, OrderedMap.keys, List.length_map]
  rfl

/-! ## The nodes of a document -/

variable {document : Document} {definitions : List Definition}

theorem exists_valuesOf (linked : document.Linked) (known : document.AllKnown)
    (attached : document.Attached id) (definitions : List Definition) :
    ∃ values, valuesOf definitions document id = .ok values ∧
      ∀ value, value ∈ values ↔
        ∃ definition ∈ definitions, definition.Gives document id value := by
  have tested : ∀ definition ∈ definitions, ∃ passed,
      definition.accepts document id = .ok passed :=
    fun definition _ => definition.exists_accepts linked known (attached.inside linked)
  rcases Reading.exists_mapM fun definition
      (_ : definition ∈ definitions.filter fun definition =>
        definition.accepts document id = .ok true) =>
    definition.exists_values linked known attached with ⟨answers, read⟩
  refine ⟨answers.flatten, by
    rw [valuesOf, Reading.filterM_eq tested, Reading.ok_bind, read]; rfl,
    fun value => ?_⟩
  simp only [List.mem_flatten, Reading.mem_mapM_iff read, List.mem_filter,
    decide_eq_true_eq, Definition.Gives]
  constructor
  · rintro ⟨values, ⟨definition, ⟨member, accepts⟩, answered⟩, has⟩
    exact ⟨definition, member, accepts, values, answered, has⟩
  · rintro ⟨definition, member, accepts, values, answered, has⟩
    exact ⟨values, ⟨definition, ⟨member, accepts⟩, answered⟩, has⟩

/-- What an index says of a document: under each value the nodes that have it, once
each and in document order, and nothing under other values. -/
structure Describes (index : Index) (definitions : List Definition)
    (document : Document) : Prop where
  ordered : ∃ visited, document.descendants Document.root = .ok visited ∧
    ∀ value, (index.get value).Sublist visited
  once : ∀ value, (index.get value).Nodup
  listed : ∀ value id, id ∈ index.get value ↔ Listed definitions document value id
  keys : ∀ value, value ∈ index.entries.keys ↔ ∃ id, Listed definitions document value id

theorem exists_postings (linked : document.Linked) (known : document.AllKnown)
    (definitions : List Definition) :
    ∃ list below, postings definitions document = .ok list ∧
      document.descendants Document.root = .ok (Document.root :: below) ∧
      (Document.root :: below).Nodup ∧ list.map Prod.fst = below ∧
      ∀ value id, (∃ values, (id, values) ∈ list ∧ value ∈ values) ↔
        Listed definitions document value id := by
  have walked := linked.descendants_root
  have once := linked.nodup_subtree_root
  have members (id : NodeId) : id ∈ document.subtree Document.root ↔
      document.Attached id :=
    linked.mem_subtree_root_iff
  rw [Document.subtree_eq linked (.top linked.rootLoose) linked.rootInside]
    at walked once members
  generalize (document.childLinks Document.root).flatMap document.subtree = below
    at walked once members
  have each : ∀ id ∈ below, ∃ posting : NodeId × List String,
      (do return (id, ← valuesOf definitions document id) : Reading _) = .ok posting := by
    intro id member
    rcases exists_valuesOf linked known ((members id).mp (List.mem_cons_of_mem _ member))
      definitions with ⟨values, answered, _⟩
    exact ⟨(id, values), by rw [answered]; rfl⟩
  rcases Reading.exists_mapM each with ⟨list, read⟩
  refine ⟨list, below, ?_, walked, once, Reading.map_of_mapM ?_ read, fun value id => ?_⟩
  · rw [postings, walked]
    exact read
  · intro id posting answered
    rcases Reading.bind_eq_ok_iff.mp answered with ⟨values, _, same⟩
    cases same
    rfl
  constructor
  · rintro ⟨values, posted, has⟩
    rcases (Reading.mem_mapM_iff read).mp posted with ⟨other, member, answered⟩
    rcases Reading.bind_eq_ok_iff.mp answered with ⟨others, valuesKnown, same⟩
    cases same
    have attached := (members id).mp (List.mem_cons_of_mem _ member)
    rcases exists_valuesOf linked known attached definitions with ⟨_, answered, given⟩
    cases valuesKnown.symm.trans answered
    refine ⟨attached, fun same => ?_, (given value).mp has⟩
    exact (List.nodup_cons.mp once).1 (same ▸ member)
  · intro listed
    rcases exists_valuesOf linked known listed.attached definitions with
      ⟨values, answered, given⟩
    rcases List.mem_cons.mp ((members id).mpr listed.attached) with same | member
    · exact absurd same listed.notRoot
    · refine ⟨values, (Reading.mem_mapM_iff read).mpr ⟨id, member, ?_⟩,
        (given value).mpr listed.given⟩
      rw [answered]
      rfl

theorem exists_build (linked : document.Linked) (known : document.AllKnown)
    (definitions : List Definition) :
    ∃ index, build definitions document = .ok index ∧
      index.Describes definitions document := by
  rcases exists_postings linked known definitions with
    ⟨list, below, posted, walked, once, shown, listed⟩
  have belowOnce : (list.map Prod.fst).Nodup := shown ▸ (List.nodup_cons.mp once).2
  have within (value : String) : ((ofPostings list).get value).Sublist below := by
    rw [get_ofPostings belowOnce, ← shown]
    exact List.filter_sublist.map Prod.fst
  refine ⟨ofPostings list, by rw [build, posted]; rfl, {
    ordered := ⟨_, walked, fun value => (within value).cons _⟩
    once := fun value => (shown ▸ belowOnce).sublist (within value)
    listed := fun value id => ?_
    keys := fun value => ?_ }⟩
  · rw [← listed value id, get_ofPostings belowOnce]
    simp
  · rw [mem_keys_ofPostings, Prod.exists]
    exact exists_congr fun id => listed value id

end Index

end ResultTree.Key
