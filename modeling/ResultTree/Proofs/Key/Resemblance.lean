import ResultTree.Key.Index
import ResultTree.Proofs.Document.Resemblance

namespace ResultTree.Key

/-! Patterns and use expressions look at expanded names, at values and at links, so that
documents that resemble each other have the same indexes. -/

open Document (Agree Resembles)

variable {left right : Document}

theorem filterMapM_zipIdx_eq {α β γ : Type} {read : α × Nat → Reading (Option γ)}
    {readOther : β × Nat → Reading (Option γ)} {items : List α} {others : List β}
    (each : List.Forall₂ (fun item other =>
      ∀ index, read (item, index) = readOther (other, index)) items others)
    (start : Nat) :
    (items.zipIdx start).filterMapM read =
      (others.zipIdx start).filterMapM readOther := by
  induction each generalizing start with
  | nil => rfl
  | cons first _ induction =>
      simp only [List.zipIdx_cons, List.filterMapM_cons, first start, induction]

/-! ## Patterns -/

theorem NodeTest.accepts_eq (alike : left.Resembles right) (test : NodeTest)
    (id : NodeId) :
    test.accepts left id = test.accepts right id := by
  cases alike.showsAlike id with
  | missing absent otherAbsent => simp [accepts, absent, otherAbsent]
  | @plain content noElement held otherHeld =>
      rw [accepts, accepts, held, otherHeld]
      cases content with
      | element element => cases noElement
      | _ => cases test <;> rfl
  | element held otherHeld name known otherKnown =>
      rw [accepts, accepts, held, otherHeld]
      cases test <;> simp [known, otherKnown, name]

theorem climbs_eq (alike : left.Resembles right) (tests : List NodeTest) (id : NodeId) :
    climbs left tests id = climbs right tests id := by
  induction tests generalizing id with
  | nil => rfl
  | cons test outer induction =>
      simp only [climbs, alike.parent_eq, test.accepts_eq alike, induction]

theorem endsPath_eq (alike : left.Resembles right) (path : List NodeTest) (id : NodeId) :
    endsPath left path id = endsPath right path id := by
  unfold endsPath
  simp only [NodeTest.accepts_eq alike, climbs_eq alike]

theorem Definition.accepts_eq (alike : left.Resembles right) (definition : Definition)
    (id : NodeId) : definition.accepts left id = definition.accepts right id := by
  simp only [Definition.accepts, Pattern.accepts, endsPath_eq alike]

/-! ## Use expressions -/

theorem attributesOf_eq (alike : left.Resembles right) (test : NameTest)
    (owner : NodeId) :
    attributesOf left test owner = attributesOf right test owner := by
  cases alike.showsAlike owner with
  | missing absent otherAbsent =>
      simp [attributesOf, Document.attributes, Document.element?, absent, otherAbsent]
  | plain noElement held otherHeld =>
      simp [attributesOf, Document.attributes, Document.element?, held, otherHeld,
        noElement]
  | element held otherHeld _ _ _ attributes =>
      rw [attributesOf, attributesOf, Document.attributes_of_element held,
        Document.attributes_of_element otherHeld]
      refine filterMapM_zipIdx_eq (attributes.imp fun first second agree index => ?_) 0
      rcases Document.agree_attributePicture_iff.mp agree with
        ⟨name, value, uri, known, otherKnown⟩
      simp only [known, otherKnown, name, value]

theorem Step.select_eq (alike : left.Resembles right) (item : Item) :
    ∀ step : Step, step.select left item = step.select right item
  | .self => rfl
  | .parent => by cases item <;> simp only [Step.select, alike.parent_eq]
  | .child test => by
      have tested : test.accepts left = test.accepts right :=
        funext (test.accepts_eq alike)
      cases item <;> simp only [Step.select, alike.children_eq, tested]
  | .attribute test => by cases item <;> simp only [Step.select, attributesOf_eq alike]

theorem Step.advance_eq (alike : left.Resembles right) (selected : List Item)
    (step : Step) :
    step.advance left selected = step.advance right selected := by
  have selects : step.select left = step.select right := by
    funext item
    exact Step.select_eq alike item step
  rw [Step.advance, Step.advance, selects]

theorem Item.text_eq (alike : left.Resembles right) (item : Item) :
    item.text left = item.text right := by
  cases item with
  | node id => exact alike.stringValue_eq id
  | _ => rfl

theorem Definition.values_eq (alike : left.Resembles right) (definition : Definition)
    (id : NodeId) : definition.values left id = definition.values right id := by
  have advances : Step.advance left = Step.advance right :=
    funext fun selected => funext (Step.advance_eq alike selected)
  have texts : Item.text left = Item.text right := funext (Item.text_eq alike)
  simp only [Definition.values, UseExpression.values, UseExpression.selection,
    advances, texts]

/-! ## Indexes -/

/-- Documents that resemble each other have the same index for every key. -/
theorem Index.build_eq (alike : left.Resembles right) (definitions : List Definition) :
    Index.build definitions left = Index.build definitions right := by
  have listed : Index.valuesOf definitions left = Index.valuesOf definitions right := by
    funext id
    simp only [Index.valuesOf, Definition.accepts_eq alike, Definition.values_eq alike]
  rw [Index.build, Index.build, Index.postings, Index.postings,
    alike.descendants_eq, listed]

end ResultTree.Key
