import Mathlib.Data.List.Forall2
import ResultTree.Proofs.Document.Descent

namespace ResultTree

/-! What a document shows to those who know nothing of addresses and handles: its nodes in
document order, each with what it holds and with the number of its children. A name is
a local name with a URI. -/

inductive Picture
  | document
  | element (name : String) (uri : Option String)
      (attributes : List (String × Option String × String))
  | text (text : String)
  | comment (text : String)
  | instruction (target data : String)
deriving DecidableEq, Repr

namespace Document

def attributePicture (document : Document) (held : Attribute) :
    Reading (String × Option String × String) := do
  return (held.name, ← document.uri? held.ns, held.value)

def contentPicture (document : Document) : Content → Reading Picture
  | .document => return .document
  | .element element => do
      let uri ← document.uri? element.ns
      let attributes ← element.attributes.mapM document.attributePicture
      return .element element.name uri attributes
  | .text text => return .text text
  | .comment text => return .comment text
  | .instruction target data => return .instruction target data

def picture (document : Document) (id : NodeId) : Reading (Picture × Nat) := do
  let picture ← document.contentPicture (← document.content id)
  return (picture, (← document.children id).length)

/-- What a node and its descendants show, in document order. -/
def outline (document : Document) (id : NodeId) : Reading (List (Picture × Nat)) := do
  (← document.descendants id).mapM document.picture

/-! ## Equal outlines -/

section Lists

variable {α β : Type} {related : α → β → Prop} {left : List α} {right : List β}

theorem forall₂_mem (both : List.Forall₂ related left right) :
    List.Forall₂ (fun first second => first ∈ left ∧ second ∈ right ∧
      related first second)
      left right := by
  induction both with
  | nil => exact .nil
  | cons relates _ induction =>
      refine .cons ⟨by simp, by simp, relates⟩ (induction.imp ?_)
      rintro first second ⟨firstMember, secondMember, relates⟩
      exact ⟨List.mem_cons_of_mem _ firstMember, List.mem_cons_of_mem _ secondMember,
        relates⟩

theorem exists_of_mem_right (both : List.Forall₂ related left right) {second : β}
    (member : second ∈ right) : ∃ first ∈ left, related first second := by
  induction both with
  | nil => cases member
  | cons relates _ induction =>
      rcases List.mem_cons.mp member with rfl | member
      · exact ⟨_, List.mem_cons_self, relates⟩
      · rcases induction member with ⟨first, firstMember, relates⟩
        exact ⟨first, List.mem_cons_of_mem _ firstMember, relates⟩

theorem exists_getElem?_right (both : List.Forall₂ related left right) {index : Nat}
    {first : α} (listed : left[index]? = some first) :
    ∃ second, right[index]? = some second ∧ related first second := by
  induction both generalizing index with
  | nil => simp at listed
  | cons relates _ induction =>
      cases index with
      | zero =>
          cases listed
          exact ⟨_, rfl, relates⟩
      | succ index => exact induction listed

def Agree {γ : Type} (left right : Reading γ) : Prop :=
  ∃ answer, left = .ok answer ∧ right = .ok answer

theorem Agree.mapM {γ : Type} {read : α → Reading γ} {readOther : β → Reading γ}
    (each :
      List.Forall₂ (fun first second => Agree (read first) (readOther second)) left
        right) :
    Agree (left.mapM read) (right.mapM readOther) := by
  induction each with
  | nil => exact ⟨[], rfl, rfl⟩
  | cons agree _ induction =>
      rcases agree with ⟨answer, known, otherKnown⟩
      rcases induction with ⟨rest, restKnown, otherRestKnown⟩
      refine ⟨answer :: rest, ?_, ?_⟩
      · rw [List.mapM_cons, known, restKnown]
        rfl
      · rw [List.mapM_cons, otherKnown, otherRestKnown]
        rfl

end Lists

variable {source after : Document} {original copy : NodeId}

theorem agree_picture {content copied : Content}
    (held : source.content original = .ok content)
    (copyHeld : after.content copy = .ok copied)
    (same : Agree (source.contentPicture content) (after.contentPicture copied))
    (count : (source.childLinks original).length = (after.childLinks copy).length) :
    Agree (source.picture original) (after.picture copy) := by
  rcases content_eq_ok_iff.mp held with ⟨node, found, _⟩
  rcases content_eq_ok_iff.mp copyHeld with ⟨copyNode, copyFound, _⟩
  rcases same with ⟨shown, known, copyKnown⟩
  refine ⟨(shown, (source.childLinks original).length), ?_, ?_⟩
  · simp [picture, held, known, children_eq_childLinks (lt_size_of_node found)]
  · simp [picture, copyHeld, copyKnown,
      children_eq_childLinks (lt_size_of_node copyFound), count]

theorem agree_outline {nodes copyNodes : List NodeId} (linked : source.Linked)
    (way : source.Way original nodes) (inside : original < source.size)
    (afterLinked : after.Linked) (copyWay : after.Way copy copyNodes)
    (copyInside : copy < after.size)
    (each : List.Forall₂
      (fun node copyNode => Agree (source.picture node) (after.picture copyNode))
      (source.subtree original) (after.subtree copy)) :
    Agree (source.outline original) (after.outline copy) := by
  unfold outline
  rw [descendants_eq_subtree linked way inside,
    descendants_eq_subtree afterLinked copyWay copyInside]
  exact Agree.mapM each

end Document

end ResultTree
