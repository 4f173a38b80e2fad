import Mathlib.Data.List.Perm.Subperm
import ResultTree.Document.Traversal
import ResultTree.Proofs.Document.Links

namespace ResultTree.Document

/-! The way up from a node, as a relation that knows nothing of how many steps are
allowed. A way that ends visits no node twice, so the size of the document is
steps enough, and following links with that bound finds every way there is. -/

/-- The nodes on the way up from a node, itself first, where that way ends. -/
inductive Way (document : Document) : NodeId → List NodeId → Prop
  | top {id : NodeId} (loose : document.parentLink id = none) : Way document id [id]
  | up {id parent : NodeId} {above : List NodeId}
      (link : document.parentLink id = some parent) (way : Way document parent above) :
      Way document id (id :: above)

/-- The way up from `lower` passes `upper`. -/
abbrev Passes (document : Document) : NodeId → NodeId → Prop :=
  Relation.ReflTransGen fun lower upper => document.parentLink lower = some upper

def Acyclic (document : Document) : Prop := ∀ id, ∃ nodes, document.Way id nodes

namespace Way

variable {document : Document} {id : NodeId} {nodes : List NodeId}

theorem eq_cons (way : document.Way id nodes) : ∃ above, nodes = id :: above := by
  cases way with
  | top _ => exact ⟨[], rfl⟩
  | up _ way => exact ⟨_, rfl⟩

theorem self_mem (way : document.Way id nodes) : id ∈ nodes := by
  rcases way.eq_cons with ⟨above, same⟩
  simp [same]

theorem length_pos (way : document.Way id nodes) : 0 < nodes.length :=
  List.length_pos_of_mem way.self_mem

theorem unique {others : List NodeId} (way : document.Way id nodes)
    (other : document.Way id others) : nodes = others := by
  induction way generalizing others with
  | top loose =>
      cases other with
      | top _ => rfl
      | up link _ => simp [loose] at link
  | up link way induction =>
      cases other with
      | top loose => simp [loose] at link
      | up otherLink otherWay =>
          cases link.symm.trans otherLink
          rw [induction otherWay]

theorem from_mem {passed : NodeId} (way : document.Way id nodes)
    (member : passed ∈ nodes) :
    ∃ before above, nodes = before ++ passed :: above ∧
      document.Way passed (passed :: above) := by
  induction way with
  | top loose =>
      cases List.mem_singleton.mp member
      exact ⟨[], [], rfl, .top loose⟩
  | @up id parent above link way induction =>
      rcases List.mem_cons.mp member with same | member
      · subst same
        exact ⟨[], above, rfl, .up link way⟩
      · rcases induction member with ⟨before, rest, same, restWay⟩
        exact ⟨id :: before, rest, by simp [same], restWay⟩

theorem nodup (way : document.Way id nodes) : nodes.Nodup := by
  induction way with
  | top _ => simp
  | @up id parent above link way induction =>
      refine List.nodup_cons.mpr ⟨fun member => ?_, induction⟩
      rcases way.from_mem member with ⟨before, rest, same, restWay⟩
      have longer := congrArg List.length (restWay.unique (.up link way))
      rw [same] at longer
      simp only [List.length_cons, List.length_append] at longer
      omega

theorem inside (linked : document.Linked) (way : document.Way id nodes)
    (start : id < document.size) : ∀ passed ∈ nodes, passed < document.size := by
  induction way with
  | top _ => simpa using start
  | up link way induction =>
      intro passed member
      rcases List.mem_cons.mp member with same | member
      · exact same ▸ start
      · exact induction (linked.parentInside link) passed member

theorem length_le_size (linked : document.Linked) (way : document.Way id nodes)
    (start : id < document.size) : nodes.length ≤ document.size := by
  have subset : nodes ⊆ List.range document.size := fun passed member =>
    List.mem_range.mpr (way.inside linked start passed member)
  simpa using (List.subperm_of_subset way.nodup subset).length_le

theorem climb (way : document.Way id nodes) {steps : Nat}
    (enough : nodes.length ≤ steps) :
    document.climb steps (some id) = ⟨nodes, false⟩ := by
  induction way generalizing steps with
  | top loose =>
      cases steps with
      | zero => simp at enough
      | succ steps => simp [Document.climb, loose]
  | up link way induction =>
      cases steps with
      | zero => simp at enough
      | succ steps =>
          simp only [List.length_cons, Nat.add_le_add_iff_right] at enough
          simp [Document.climb, link, induction enough]

theorem of_sameLinks (way : document.Way id nodes) {changed : Document}
    (same : ∀ passed ∈ nodes, changed.parentLink passed = document.parentLink passed) :
    changed.Way id nodes := by
  induction way with
  | top loose => exact .top ((same _ (by simp)).trans loose)
  | up link way induction =>
      exact .up ((same _ (by simp)).trans link)
        (induction fun passed member => same passed (List.mem_cons_of_mem _ member))

theorem mem_iff_passes {passed : NodeId} (way : document.Way id nodes) :
    passed ∈ nodes ↔ document.Passes id passed := by
  constructor
  · intro member
    induction way with
    | top _ =>
        cases List.mem_singleton.mp member
        exact .refl
    | up link way induction =>
        rcases List.mem_cons.mp member with same | member
        · subst same
          exact .refl
        · exact .head link (induction member)
  · intro passes
    induction passes using Relation.ReflTransGen.head_induction_on generalizing nodes with
    | refl => exact way.self_mem
    | head link _ induction =>
        cases way with
        | top loose => simp [loose] at link
        | up otherLink above =>
            cases link.symm.trans otherLink
            exact List.mem_cons_of_mem _ (induction above)

end Way

variable {document : Document} {id : NodeId} {nodes : List NodeId}

theorem way_of_climb {steps : Nat}
    (climbed : document.climb steps (some id) = ⟨nodes, false⟩) :
    document.Way id nodes := by
  induction steps generalizing id nodes with
  | zero => simp [climb] at climbed
  | succ steps induction =>
      simp only [climb, Ascent.mk.injEq] at climbed
      rcases climbed with ⟨same, ended⟩
      subst same
      cases link : document.parentLink id with
      | none => simpa [climb] using Way.top link
      | some parent => exact .up link (induction (by rw [← ended, link]))

theorem acyclic_of_climb (ended : ∀ id < document.size,
    (document.climb document.size (some id)).endless = false) : document.Acyclic := by
  intro id
  by_cases inside : id < document.size
  · have ended := ended id inside
    rcases climbed : document.climb document.size (some id) with ⟨nodes, endless⟩
    rw [climbed] at ended
    subst ended
    exact ⟨nodes, way_of_climb climbed⟩
  · have loose : document.parentLink id = none := by
      rw [parentLink, nodes_eq_none_iff.mpr (Nat.le_of_not_lt inside), Option.bind_none]
    exact ⟨[id], .top loose⟩

theorem passes_of_mem_climb {steps : Nat} {passed : NodeId}
    (member : passed ∈ (document.climb steps (some id)).nodes) :
    document.Passes id passed := by
  induction steps generalizing id with
  | zero => simp [climb] at member
  | succ steps induction =>
      simp only [climb, List.mem_cons] at member
      rcases member with same | member
      · subst same
        exact .refl
      · cases link : document.parentLink id with
        | none => simp [climb, link] at member
        | some parent => exact .head link (induction (link ▸ member))

theorem ascent_of_inside (inside : id < document.size) :
    document.ascent id = .ok (document.climb document.size (some id)) := by
  rcases exists_node_iff.mpr inside with ⟨node, found⟩
  simp [ascent, node_of found]

theorem Way.ascent (linked : document.Linked) (way : document.Way id nodes)
    (inside : id < document.size) : document.ascent id = .ok ⟨nodes, false⟩ := by
  rw [ascent_of_inside inside, way.climb (way.length_le_size linked inside)]

theorem Way.scope (linked : document.Linked) (way : document.Way id nodes)
    (inside : id < document.size) :
    document.scope id = .ok ⟨nodes.flatMap document.declared, false⟩ := by
  simp [Document.scope, way.ascent linked inside]

theorem ancestorsOrSelf_eq_ok_iff (linked : document.Linked) :
    document.ancestorsOrSelf id = .ok nodes ↔
      id < document.size ∧ document.Way id nodes := by
  constructor
  · intro answered
    by_cases inside : id < document.size
    · refine ⟨inside, ?_⟩
      simp only [ancestorsOrSelf, ascent_of_inside inside, Reading.ok_bind] at answered
      rcases climbed : document.climb document.size (some id) with ⟨passed, endless⟩
      cases endless <;> simp [climbed] at answered
      exact answered ▸ way_of_climb climbed
    · have missing := nodes_eq_none_iff.mpr (Nat.le_of_not_lt inside)
      simp [ancestorsOrSelf, Document.ascent, node_of_none missing] at answered
  · rintro ⟨inside, way⟩
    simp [ancestorsOrSelf, way.ascent linked inside]

end ResultTree.Document
