import ResultTree.Proofs.Document.Handles
import ResultTree.Proofs.Document.Outline

namespace ResultTree

/-! Documents with the same nodes at the same addresses, which may differ in prefixes, in
handles and in lines. What is read of them without a look at these is the same. -/

namespace Document

section

variable {α β γ : Type} {read : α → Reading γ} {readOther : β → Reading γ}

theorem Agree.forall₂ {left : List α} {right : List β}
    (agree : Agree (left.mapM read) (right.mapM readOther)) :
    List.Forall₂ (fun first second => Agree (read first) (readOther second)) left
      right := by
  rcases agree with ⟨answers, known, otherKnown⟩
  have each := Reading.forall₂_of_mapM known
  have eachOther := Reading.forall₂_of_mapM otherKnown
  clear known otherKnown
  induction each generalizing right with
  | nil =>
      cases eachOther
      exact .nil
  | cons first _ induction =>
      cases eachOther with
      | cons second rest => exact .cons ⟨_, first, second⟩ (induction rest)

end

/-- Documents show the same at every address, and their links are the same. -/
structure Resembles (left right : Document) : Prop where
  size : left.size = right.size
  parents : ∀ id, left.parentLink id = right.parentLink id
  children : ∀ id, left.childLinks id = right.childLinks id
  shows : ∀ id < left.size, ∃ content other, left.content id = .ok content ∧
    right.content id = .ok other ∧
    Agree (left.contentPicture content) (right.contentPicture other)

inductive ShowsAlike (left right : Document) (id : NodeId) : Prop
  | missing (absent : left.content id = .error (.noSuchNode id))
      (otherAbsent : right.content id = .error (.noSuchNode id))
  | plain {content : Content} (noElement : content.element? = none)
      (held : left.content id = .ok content) (otherHeld : right.content id = .ok content)
  | element {element other : Element} {uri : Option String}
      (held : left.content id = .ok (.element element))
      (otherHeld : right.content id = .ok (.element other))
      (name : other.name = element.name) (known : left.uri? element.ns = .ok uri)
      (otherKnown : right.uri? other.ns = .ok uri)
      (attributes : List.Forall₂ (fun first second =>
        Agree (left.attributePicture first) (right.attributePicture second))
        element.attributes other.attributes)

variable {left right : Document} {id : NodeId}

theorem agree_attributePicture_iff {first second : Attribute} :
    Agree (left.attributePicture first) (right.attributePicture second) ↔
      first.name = second.name ∧ first.value = second.value ∧
        ∃ uri, left.uri? first.ns = .ok uri ∧ right.uri? second.ns = .ok uri := by
  constructor
  · rintro ⟨picture, shown, otherShown⟩
    rcases Reading.bind_eq_ok_iff.mp shown with ⟨uri, known, same⟩
    rcases Reading.bind_eq_ok_iff.mp otherShown with ⟨otherUri, otherKnown, otherSame⟩
    have parts := Except.ok.inj (same.trans otherSame.symm)
    simp only [Prod.mk.injEq] at parts
    rcases parts with ⟨name, rfl, value⟩
    exact ⟨name, value, uri, known, otherKnown⟩
  · rintro ⟨name, value, uri, known, otherKnown⟩
    exact ⟨(first.name, uri, first.value), by simp [attributePicture, known],
      by simp [attributePicture, otherKnown, name, value]⟩

theorem contentPicture_element_eq_ok_iff {element : Element} {picture : Picture} :
    left.contentPicture (.element element) = .ok picture ↔
      ∃ uri pictures, left.uri? element.ns = .ok uri ∧
        element.attributes.mapM left.attributePicture = .ok pictures ∧
        Picture.element element.name uri pictures = picture := by
  simp [contentPicture, Reading.bind_eq_ok_iff]

theorem showsAlike_of_agree {content other : Content}
    (held : left.content id = .ok content) (otherHeld : right.content id = .ok other)
    (agree : Agree (left.contentPicture content) (right.contentPicture other)) :
    left.ShowsAlike right id := by
  rcases agree with ⟨picture, shown, otherShown⟩
  cases content with
  | element element =>
      rcases contentPicture_element_eq_ok_iff.mp shown with
        ⟨uri, pictures, known, read, rfl⟩
      cases other with
      | element other =>
          rcases contentPicture_element_eq_ok_iff.mp otherShown with
            ⟨otherUri, otherPictures, otherKnown, otherRead, same⟩
          rcases Picture.element.inj same with ⟨name, rfl, rfl⟩
          exact .element held otherHeld name known otherKnown
            (Agree.forall₂ ⟨_, read, otherRead⟩)
      | _ => cases otherShown
  | _ =>
      cases shown
      cases other with
      | element other =>
          rcases contentPicture_element_eq_ok_iff.mp otherShown with ⟨_, _, _, _, same⟩
          cases same
      | _ =>
          first
          | cases otherShown
            exact .plain rfl held otherHeld
          | cases otherShown

namespace Resembles

theorem showsAlike (alike : left.Resembles right) (id : NodeId) :
    left.ShowsAlike right id := by
  rcases Nat.lt_or_ge id left.size with inside | outside
  · rcases alike.shows id inside with ⟨content, other, held, otherHeld, agree⟩
    exact showsAlike_of_agree held otherHeld agree
  · exact .missing (content_of_none (nodes_eq_none_iff.mpr outside))
      (content_of_none (nodes_eq_none_iff.mpr (alike.size ▸ outside)))

theorem parent_eq (alike : left.Resembles right) (id : NodeId) :
    left.parent id = right.parent id := by
  rcases Nat.lt_or_ge id left.size with inside | outside
  · rw [parent_eq_parentLink inside, parent_eq_parentLink (alike.size ▸ inside),
      alike.parents]
  · rw [parent_of_none (nodes_eq_none_iff.mpr outside),
      parent_of_none (nodes_eq_none_iff.mpr (alike.size ▸ outside))]

theorem children_eq (alike : left.Resembles right) (id : NodeId) :
    left.children id = right.children id := by
  rcases Nat.lt_or_ge id left.size with inside | outside
  · rw [children_eq_childLinks inside, children_eq_childLinks (alike.size ▸ inside),
      alike.children]
  · simp [Document.children, node_of_none (nodes_eq_none_iff.mpr outside),
      node_of_none (nodes_eq_none_iff.mpr (alike.size ▸ outside))]

theorem visit_eq (alike : left.Resembles right) (visits : Nat) (pending : List NodeId) :
    left.visit visits pending = right.visit visits pending := by
  induction visits generalizing pending with
  | zero => cases pending <;> rfl
  | succ visits induction =>
      cases pending with
      | nil => rfl
      | cons id rest => simp only [visit, alike.children_eq, induction]

theorem descendants_eq (alike : left.Resembles right) (id : NodeId) :
    left.descendants id = right.descendants id := by
  rw [descendants, alike.visit_eq, alike.size, descendants]

theorem ownText?_eq (alike : left.Resembles right) (id : NodeId) :
    left.ownText? id = right.ownText? id := by
  cases alike.showsAlike id with
  | missing absent otherAbsent => rw [ownText?, ownText?, absent, otherAbsent]
  | plain _ held otherHeld => rw [ownText?, ownText?, held, otherHeld]
  | element held otherHeld =>
      rw [ownText?, ownText?, held, otherHeld]
      rfl

theorem stringValue_eq (alike : left.Resembles right) (id : NodeId) :
    left.stringValue id = right.stringValue id := by
  have texts : left.ownText? = right.ownText? := funext alike.ownText?_eq
  rw [stringValue, stringValue, texts, alike.descendants_eq]
  cases alike.showsAlike id with
  | missing absent otherAbsent => rw [absent, otherAbsent]
  | plain _ held otherHeld => rw [held, otherHeld]
  | element held otherHeld =>
      rw [held, otherHeld]
      rfl

end Resembles

end Document

end ResultTree
