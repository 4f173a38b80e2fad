import Mathlib.Data.List.Sort
import ResultTree.Proofs.Builder.Closing
import ResultTree.Proofs.Document.Interlinking

namespace ResultTree

/-! Writing numbers nodes in document order. A new node goes to the end of a node that
the one before it is at or below, and this alone makes the walk from the document node
meet the addresses one after the other. -/

namespace Document

/-- Every node but the document node is a child of the node before it or of one above
that, and the children of every node come in the order of their addresses. -/
structure InOrder (document : Document) : Prop where
  follows : ∀ id, id + 1 < document.size →
    ∃ parent, document.parentLink (id + 1) = some parent ∧ document.Passes id parent
  ascending : ∀ id, (document.childLinks id).Pairwise (· < ·)

namespace InOrder

variable {document : Document} {id parent lower upper : NodeId}

theorem le_of_passes (order : document.InOrder) (linked : document.Linked)
    (passes : document.Passes lower upper) : upper ≤ lower := by
  induction lower using Nat.strong_induction_on generalizing upper with
  | _ lower induction =>
      rcases Relation.ReflTransGen.cases_head passes with rfl | ⟨parent, link, above⟩
      · exact Nat.le_refl _
      · cases lower with
        | zero => cases link.symm.trans linked.rootLoose
        | succ id =>
            rcases order.follows id (lt_size_of_parentLink link) with
              ⟨other, otherLink, below⟩
            cases link.symm.trans otherLink
            have first : parent ≤ id := induction id (Nat.lt_succ_self id) below
            have second : upper ≤ parent :=
              induction parent (Nat.lt_succ_of_le first) above
            exact Nat.le_succ_of_le (Nat.le_trans second first)

theorem parent_lt (order : document.InOrder) (linked : document.Linked)
    (link : document.parentLink id = some parent) : parent < id := by
  cases id with
  | zero => cases link.symm.trans linked.rootLoose
  | succ id =>
      rcases order.follows id (lt_size_of_parentLink link) with ⟨other, otherLink, below⟩
      cases link.symm.trans otherLink
      exact Nat.lt_succ_of_le (order.le_of_passes linked below)

theorem attached (order : document.InOrder) (linked : document.Linked)
    (inside : id < document.size) : document.Attached id := by
  induction id using Nat.strong_induction_on with
  | _ id induction =>
      cases id with
      | zero => exact .refl
      | succ id =>
          rcases order.follows id inside with ⟨parent, link, _⟩
          have earlier := order.parent_lt linked link
          exact .head link (induction parent earlier (Nat.lt_trans earlier inside))

theorem not_passes_of_le (order : document.InOrder) (linked : document.Linked)
    {left right : NodeId} (leftLink : document.parentLink left = some parent)
    (rightLink : document.parentLink right = some parent) (before : left < right)
    (later : right ≤ id) : ¬ document.Passes id left := by
  induction id, later using Nat.le_induction with
  | base =>
      intro passes
      rcases Relation.ReflTransGen.cases_head passes with rfl | ⟨other, otherLink, passes⟩
      · exact Nat.lt_irrefl _ before
      · cases rightLink.symm.trans otherLink
        have above := order.le_of_passes linked passes
        exact Nat.lt_irrefl _ (Nat.lt_of_lt_of_le (order.parent_lt linked leftLink) above)
  | succ id later induction =>
      intro passes
      rcases Relation.ReflTransGen.cases_head passes with rfl | ⟨other, link, passes⟩
      · exact Nat.not_le_of_lt (Nat.lt_of_succ_lt before) later
      · rcases order.follows id (lt_size_of_parentLink link) with
          ⟨between, betweenLink, below⟩
        cases link.symm.trans betweenLink
        exact induction (below.trans passes)

theorem pairwise_preorder (order : document.InOrder) (linked : document.Linked)
    (depth : Nat) (id : NodeId) : (document.preorder depth id).Pairwise (· < ·) := by
  induction depth generalizing id with
  | zero => exact .nil
  | succ depth induction =>
      refine List.pairwise_cons.mpr ⟨?below, List.pairwise_flatMap.mpr ⟨?each, ?apart⟩⟩
      case below =>
        intro below member
        rcases List.mem_flatMap.mp member with ⟨child, childMember, member⟩
        have least := order.le_of_passes linked (passes_of_mem_preorder linked member)
        have after := order.parent_lt linked (linked.listed.mp childMember)
        exact Nat.lt_of_lt_of_le after least
      case each => exact fun child _ => induction child
      case apart =>
        refine (order.ascending id).imp_of_mem
          fun {left right} leftMember rightMember before => ?_
        intro below inLeft other inRight
        have least := order.le_of_passes linked (passes_of_mem_preorder linked inRight)
        have passes := passes_of_mem_preorder linked inLeft
        by_contra notBefore
        have later := Nat.le_trans least (Nat.le_of_not_lt notBefore)
        exact order.not_passes_of_le linked (linked.listed.mp leftMember)
          (linked.listed.mp rightMember) before later passes

theorem subtree_root (order : document.InOrder) (linked : document.Linked) :
    document.subtree root = List.range document.size := by
  refine (order.pairwise_preorder linked _ _).eq_of_mem_iff List.pairwise_lt_range
    fun id => ?_
  rw [List.mem_range]
  constructor
  · exact inside_of_mem_preorder linked linked.rootInside
  · exact fun inside => linked.mem_subtree_root_iff.mpr (order.attached linked inside)

theorem flatMap_subtree_root (order : document.InOrder) (linked : document.Linked) :
    (document.childLinks root).flatMap document.subtree =
      (List.range document.size).drop 1 := by
  rw [← order.subtree_root linked,
    subtree_eq linked (.top linked.rootLoose) linked.rootInside]
  rfl

theorem empty : InOrder .empty where
  follows := fun id inside => absurd inside (by simp [size, Document.empty])
  ascending := by
    intro id
    by_cases atRoot : id = root <;> simp [childLinks, Linked.nodes_empty, atRoot]

theorem of_sameLinks (order : document.InOrder) {changed : Document}
    (size : changed.size = document.size)
    (parents : ∀ id, changed.parentLink id = document.parentLink id)
    (children : ∀ id, changed.childLinks id = document.childLinks id) :
    changed.InOrder := by
  refine ⟨fun id inside => ?_, fun id => by simpa [children] using order.ascending id⟩
  simpa [Passes, parents] using order.follows id (size ▸ inside)

end InOrder

variable {document : Document} {parent lower upper : NodeId} {content : Content}

theorem childLinks_appended {id : NodeId} (inside : parent < document.size) :
    (document.appended parent content).childLinks id =
      if id = parent then document.childLinks id ++ [document.size]
      else document.childLinks id := by
  rw [appended, childLinks_attach (by simpa using Nat.lt_succ_of_lt inside),
    childLinks_allocate]

theorem childLinks_line {id : NodeId} (target : NodeId) (line : Nat) :
    (document.modify target fun node => { node with line }).childLinks id =
      document.childLinks id := by
  simp only [childLinks, nodes_modify]
  split <;> cases document.nodes[id]? <;> rfl

theorem passes_appended (passes : document.Passes lower upper) :
    (document.appended parent content).Passes lower upper := by
  refine Relation.ReflTransGen.mono (fun id other link => ?_) _ _ passes
  rw [parentLink_appended, if_neg (Nat.ne_of_lt (lt_size_of_parentLink link)), link]

theorem InOrder.appended (order : document.InOrder) (linked : document.Linked)
    (inside : parent < document.size)
    (goesOn : ∀ id, id + 1 = document.size → document.Passes id parent) :
    (document.appended parent content).InOrder where
  follows := by
    intro id idInside
    rw [size_appended] at idInside
    rw [parentLink_appended]
    by_cases new : id + 1 = document.size
    · rw [if_pos new]
      exact ⟨parent, rfl, passes_appended (goesOn id new)⟩
    · rw [if_neg new]
      have old := Nat.lt_of_le_of_ne (Nat.le_of_lt_succ idInside) new
      rcases order.follows id old with ⟨above, link, passes⟩
      exact ⟨above, link, passes_appended passes⟩
  ascending := by
    intro id
    rw [childLinks_appended inside]
    split
    · refine List.pairwise_append.mpr ⟨order.ascending id, by simp, ?_⟩
      intro child member new newMember
      rw [List.mem_singleton.mp newMember]
      exact linked.childInside member
    · exact order.ascending id

end Document

namespace Builder

open Document

variable {builder next : Builder} {event : Event}

structure Numbered (builder : Builder) : Prop where
  order : builder.document.InOrder
  goesOn : ∀ id, id + 1 = builder.document.size →
    builder.document.Passes id builder.parent

namespace Numbered

theorem start : Numbered {} where
  order := .empty
  goesOn := by
    intro id last
    cases last
    exact .refl

theorem appended (numbered : builder.Numbered) (standing : builder.Standing)
    (content : Content) :
    (builder.document.appended builder.parent content).InOrder :=
  numbered.order.appended standing.linked standing.hosts.inside numbered.goesOn

theorem of_sameLinks (numbered : builder.Numbered)
    (size : next.document.size = builder.document.size)
    (parents : ∀ id, next.document.parentLink id = builder.document.parentLink id)
    (children : ∀ id, next.document.childLinks id = builder.document.childLinks id)
    (up : builder.document.Passes builder.parent next.parent) : next.Numbered where
  order := numbered.order.of_sameLinks size parents children
  goesOn := by
    intro id last
    have passes := (numbered.goesOn id (size ▸ last)).trans up
    simpa [Passes, parents] using passes

end Numbered

theorem Numbered.kept (numbered : builder.Numbered) (standing : builder.Standing)
    (step : builder.Step event next) : next.Numbered := by
  cases step with
  | start qname =>
      refine ⟨numbered.appended standing _, fun id last => ?_⟩
      rw [size_appended] at last
      cases last
      exact .refl
  | text | comment =>
      refine ⟨numbered.appended standing _, fun id last => ?_⟩
      rw [size_appended] at last
      cases last
      exact .single (by rw [parentLink_appended, if_pos rfl]; rfl)
  | attr qname value =>
      have same : (builder.attr qname value).parent = builder.parent := by
        cases opened : builder.opened with
        | nil => rw [attr_of_nil opened]
        | cons innermost outer =>
            rw [attr_of_cons opened]
            simp [Builder.parent, current, opened, OpenElement.give]
      refine numbered.of_sameLinks ?_ ?_ ?_ (same ▸ .refl) <;> simp [document_attr]
  | line line newest =>
      exact numbered.of_sameLinks (size_modify _ _) (Touch.line _ line).parentLink_eq
        (fun _ => childLinks_line _ _) .refl
  | declared opened held declarable =>
      exact numbered.of_sameLinks (size_putElement _ _)
        (fun _ => parentLink_putElement _ _) (fun _ => childLinks_putElement _ _) .refl
  | close opened held =>
      refine numbered.of_sameLinks (size_putElement _ _)
        (fun _ => parentLink_putElement _ _) (fun _ => childLinks_putElement _ _)
        (.single ?_)
      have link := (standing.around opened).1
      simpa [Builder.parent, current, opened] using link
  | nowhere | refused | unmarked | surplus => exact ⟨numbered.order, numbered.goesOn⟩

/-- A document that is handed over is linked and orderly, with its nodes in document
order. -/
theorem inOrder_of_build {events : List Event} {document : Document}
    (built : (Document.build events).run = .ok (.ok document)) :
    document.Linked ∧ document.AllOrderly ∧ document.InOrder := by
  rcases exists_final_of_build built with ⟨final, ran, rfl, _, _⟩
  rcases Standing.start.holds_along_run (fun _ => single_of_mem_script)
    (fun standing step numbered => Numbered.kept numbered standing step) Numbered.start
    ran with
    ⟨standing, numbered⟩
  exact ⟨standing.linked, standing.orderly, numbered.order⟩

end Builder

end ResultTree
