import Mathlib.Data.List.Induction
import ResultTree.Proofs.Document.Change

namespace ResultTree

/-! The documents there are in use: those that the operations on documents lead
to, from an empty one on. The nodes that an operation is given have to be there.
Nothing is asked of the handles it is given, and it may be refused. -/

inductive Operation
  | newElement (name : String)
  | newText (text : String)
  | newComment (text : String)
  | newInstruction (target data : String)
  | appendChild (parent child : NodeId)
  | appendElement (parent : NodeId) (name : String)
  | setLine (id : NodeId) (line : Nat)
  | setNamespace (id : NodeId) (ns : Option Handle)
  | setAttribute (id : NodeId) (name : String) (ns : Option Handle) (value : String)
  | declare (id : NodeId) (nsPrefix : Option String) (uri : String)
  /-- Go on with a copy, which has the same nodes. -/
  | clone
deriving DecidableEq, Repr

namespace Operation

def edit : Operation → Edit Unit
  | .newElement name => (fun _ => ()) <$> Edit.newElement name
  | .newText text => (fun _ => ()) <$> Edit.newText text
  | .newComment text => (fun _ => ()) <$> Edit.newComment text
  | .newInstruction target data => (fun _ => ()) <$> Edit.newInstruction target data
  | .appendChild parent child => Edit.appendChild parent child
  | .appendElement parent name => (fun _ => ()) <$> Edit.appendElement parent name
  | .setLine id line => Edit.setLine id line
  | .setNamespace id ns => Edit.setNamespace id ns
  | .setAttribute id name ns value => Edit.setAttribute id name ns value
  | .declare id nsPrefix uri => (fun _ => ()) <$> Edit.declare id nsPrefix uri
  | .clone => pure ()

def given : Operation → List NodeId
  | .appendChild parent child => [parent, child]
  | .appendElement parent _ => [parent]
  | .setLine id _ | .setNamespace id _ | .setAttribute id _ _ _ | .declare id _ _ => [id]
  | _ => []

def InRange (operation : Operation) (document : Document) : Prop :=
  ∀ id ∈ operation.given, id < document.size

instance (operation : Operation) (document : Document) :
    Decidable (operation.InRange document) :=
  inferInstanceAs (Decidable (∀ id ∈ operation.given, id < document.size))

def leaves (operation : Operation) (document : Document) : Reading Document :=
  Prod.snd <$> operation.edit.on document

end Operation

namespace Document

inductive History : List Operation → Document → Prop
  | start : History [] .empty
  | next {operations : List Operation} {document changed : Document}
      {operation : Operation} (history : History operations document)
      (inRange : operation.InRange document)
      (left : operation.leaves document = .ok changed) :
      History (operations ++ [operation]) changed

def Reachable (document : Document) : Prop := ∃ operations, History operations document

/-- Carry operations out one after the other, as long as the nodes they are given
are there. -/
def after (operations : List Operation) : Option Document :=
  operations.foldlM (fun document operation =>
    if operation.InRange document then (operation.leaves document).toOption
    else none) .empty

theorem history_of_after {operations : List Operation} {document : Document}
    (carried : after operations = some document) : History operations document := by
  induction operations using List.reverseRecOn generalizing document with
  | nil =>
      cases carried
      exact .start
  | append_singleton operations operation induction =>
      rw [after, List.foldlM_append] at carried
      rcases Option.bind_eq_some_iff.mp carried with ⟨earlier, carriedBefore, last⟩
      rcases Option.bind_eq_some_iff.mp last with ⟨changed, left, same⟩
      cases same
      by_cases inRange : operation.InRange earlier
      · refine .next (induction carriedBefore) inRange ?_
        simp only [inRange, if_true] at left
        cases result : operation.leaves earlier with
        | error fault => simp [result, Except.toOption] at left
        | ok answer =>
            simp only [result, Except.toOption, Option.some.injEq] at left
            rw [left]
      · simp [inRange] at left

theorem reachable_of_after {operations : List Operation} {document : Document}
    (carried : after operations = some document) : document.Reachable :=
  ⟨operations, history_of_after carried⟩

end Document

namespace Edit

variable {α : Type} {edit : Edit α} {document changed : Document}

theorem on_eq_ok_iff {answer : Except Refusal α} :
    edit.on document = .ok (answer, changed) ↔
      outcome edit document = (.ok answer, changed) := by
  unfold on
  rcases outcome edit document with ⟨_ | ending, left⟩ <;> simp [Except.map]

theorem on_of {answer : Except Refusal α}
    (result : outcome edit document = (.ok answer, changed)) :
    edit.on document = .ok (answer, changed) :=
  on_eq_ok_iff.mpr result

theorem Stepwise.steps {step : Document → Document → Prop} {answer : Except Refusal α}
    (stepwise : Stepwise step edit) (result : edit.on document = .ok (answer, changed)) :
    Relation.ReflTransGen step document changed := by
  have steps := stepwise document
  rwa [on_eq_ok_iff.mp result] at steps

end Edit

namespace Operation

def Appends : Operation → Prop
  | .appendChild _ _ | .appendElement _ _ => True
  | _ => False

theorem stepwise_touch : ∀ {operation : Operation}, ¬ operation.Appends →
    Edit.Stepwise Document.Touch operation.edit
  | .newElement name, _ => .map _ (.newElement name)
  | .newText _, _ | .newComment _, _ | .newInstruction _ _, _ =>
      .map _ (.allocate trivial)
  | .setLine id line, _ => .setLine id line
  | .setNamespace id ns, _ => .setNamespace id ns
  | .setAttribute id name ns value, _ => .setAttribute id name ns value
  | .declare id nsPrefix uri, _ => .map _ (.declare id nsPrefix uri)
  | .clone, _ => .pure ()
  | .appendChild _ _, silent | .appendElement _ _, silent => absurd trivial silent

theorem stepwise (operation : Operation) :
    Edit.Stepwise Document.Change operation.edit := by
  by_cases appends : operation.Appends
  · cases operation with
    | appendChild parent child => exact .appendChild parent child
    | appendElement parent name => exact .map _ (.appendElement parent name)
    | _ => exact absurd appends id
  · exact (stepwise_touch appends).mono .touch

theorem leaves_eq_ok_iff {operation : Operation} {document changed : Document} :
    operation.leaves document = .ok changed ↔
      ∃ answer, operation.edit.on document = .ok (answer, changed) := by
  simp [leaves, Reading.map_eq_ok_iff]

theorem changes {operation : Operation} {document changed : Document}
    (left : operation.leaves document = .ok changed) : document.Changes changed := by
  rcases leaves_eq_ok_iff.mp left with ⟨answer, result⟩
  exact operation.stepwise.steps result

end Operation

namespace Document

theorem History.changes {operations : List Operation} {document : Document}
    (history : History operations document) : Changes .empty document := by
  induction history with
  | start => exact .refl
  | next _ _ left induction => exact induction.trans (Operation.changes left)

theorem Changes.holds {before after : Document} (changes : Changes before after)
    {property : Document → Prop} (start : property before)
    (kept : ∀ {before after : Document}, Change before after → property before →
      property after) :
    property after := by
  induction changes with
  | refl => exact start
  | tail _ change induction => exact kept change induction

/-- What holds of the empty document and is kept by every change holds of every
document that operations lead to. -/
theorem Reachable.holds {document : Document} (reachable : document.Reachable)
    {property : Document → Prop} (start : property .empty)
    (kept : ∀ {before after : Document}, Change before after → property before →
      property after) :
    property document := by
  rcases reachable with ⟨operations, history⟩
  exact Changes.holds history.changes start kept

end Document

end ResultTree
