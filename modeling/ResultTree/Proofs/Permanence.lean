import ResultTree.Proofs.Builder.Steps
import ResultTree.Proofs.Transform.Changes

namespace ResultTree

/-! What lasts for the life of a document, from the first step of writing it or from an
empty document on. Operations, copies and resolved namespaces may follow in any order. Any
of them may be refused, or may end in a fault half way and leave what it had done. -/

/-- A document at a time of its life: it is being written, or there for everyone. -/
inductive Stage
  | written (builder : Builder)
  | there (document : Document)
deriving DecidableEq, Repr

namespace Stage

inductive Call
  | operate (operation : Operation)
  | resolve (table : AliasTable) (wanted : Binding) (out : NodeId)
  | copyDeclarations (table : AliasTable) (out : NodeId) (bindings : List Binding)
  | copyNode (table : AliasTable) (source : Document) (node parent : NodeId)
  | copyTree (table : AliasTable) (source : Document) (node parent : NodeId)
deriving DecidableEq, Repr

def Call.edit : Call → Edit Unit
  | .operate operation => operation.edit
  | .resolve table wanted out => (fun _ => ()) <$> table.resolve wanted out
  | .copyDeclarations table out bindings =>
      (fun _ => ()) <$> table.copyDeclarations out bindings
  | .copyNode table source node parent =>
      (fun _ => ()) <$> table.copyNode source node parent
  | .copyTree table source node parent =>
      (fun _ => ()) <$> table.copyTree source node parent

def document : Stage → Document
  | .written builder => builder.document
  | .there document => document

/-- The next stage. A call leads to one however it ends, and writing comes to its end only
if nothing was refused. -/
inductive Step : Stage → Stage → Prop
  | call (call : Call) (document : Document) :
      Step (.there document) (.there (call.edit.outcome document).2)
  | event {builder next : Builder} {event : Builder.Event}
      (taken : builder.apply event = .ok next) : Step (.written builder) (.written next)
  | finish {builder : Builder} {document : Document}
      (finished : builder.finish.run = .ok (.ok document)) :
      Step (.written builder) (.there document)

abbrev LeadsTo : Stage → Stage → Prop := Relation.ReflTransGen Step

inductive Begins : Stage → Prop
  | written : Begins (.written {})
  | there : Begins (.there .empty)

open Document (Change)

/-! ## All steps are made of changes -/

theorem Call.stepwise (call : Call) : Edit.Stepwise Change call.edit := by
  cases call with
  | operate operation => exact operation.stepwise
  | resolve table wanted out =>
      exact .map _ (.mono (AliasTable.stepwise_resolve wanted out) .touch)
  | copyDeclarations table out bindings =>
      exact .map _ (.mono (AliasTable.stepwise_declareAll out _) .touch)
  | copyNode table source node parent =>
      exact .map _ (AliasTable.stepwise_copyNode node parent)
  | copyTree table source node parent =>
      exact .map _ (AliasTable.stepwise_copyWithin source.size node parent)

theorem changes_finish {builder : Builder} {document : Document}
    (finished : builder.finish.run = .ok (.ok document)) :
    builder.document.Changes document := by
  rcases Attempt.bind_eq_ok_iff.mp finished with ⟨final, closed, left⟩
  have changes : builder.document.Changes final.document :=
    Reading.holds_of_foldlM (builder.document.Changes ·.document)
      (fun _ _ _ _ changes settled => changes.trans (Builder.changes_settle settled))
      .refl (Attempt.read_eq_ok_iff.mp closed)
  cases refusal : final.refusal with
  | some refused =>
      rw [refusal] at left
      cases left
  | none =>
      rw [refusal] at left
      cases left
      exact changes

variable {start stage later : Stage}

theorem Step.changes (step : Step stage later) :
    stage.document.Changes later.document := by
  cases step with
  | call call document => exact call.stepwise document
  | event taken => exact Builder.changes_apply taken
  | finish finished => exact changes_finish finished

theorem LeadsTo.changes (leads : stage.LeadsTo later) :
    stage.document.Changes later.document := by
  induction leads with
  | refl => exact .refl
  | tail _ step induction => exact induction.trans step.changes

theorem leadsTo_of_build {events : List Builder.Event} {document : Document}
    (built : (Document.build events).run = .ok (.ok document)) :
    LeadsTo (.written {}) (.there document) := by
  rcases Attempt.bind_eq_ok_iff.mp built with ⟨final, ran, finished⟩
  have taken : LeadsTo (.written {}) (.written final) :=
    Reading.holds_of_foldlM (fun builder => LeadsTo (.written {}) (.written builder))
      (fun _ _ _ _ leads taken => leads.tail (.event taken)) .refl
      (Attempt.read_eq_ok_iff.mp ran)
  exact taken.tail (.finish finished)

/-- The document after some calls, each made whatever became of the ones before. -/
def afterCalls (document : Document) (calls : List Call) : Document :=
  calls.foldl (fun document call => (call.edit.outcome document).2) document

theorem leadsTo_afterCalls (document : Document) (calls : List Call) :
    LeadsTo (.there document) (.there (afterCalls document calls)) :=
  List.foldlRecOn calls _ (motive :=
    fun reached => LeadsTo (.there document) (.there reached)) .refl
    fun reached leads call _ => leads.tail (.call call reached)

theorem Begins.document_eq (begins : start.Begins) : start.document = .empty := by
  cases begins <;> rfl

/-! ## What lasts -/

/-- The elements of a document declare different prefixes, none of them reserved, and
the handles of an earlier document mean there what they meant before. -/
structure Lasting (earlier document : Document) : Prop where
  prefixes {id : NodeId} {element : Element} :
    document.content id = .ok (.element element) →
      (element.declarations.map Binding.nsPrefix).Nodup
  unreserved {id : NodeId} {element : Element} :
    document.content id = .ok (.element element) → ∀ declared ∈ element.declarations,
      declared.nsPrefix ≠ some "xml" ∧ declared.nsPrefix ≠ some "xmlns"
  meaning {handle : Handle} {binding : Binding} :
    earlier.binding handle = .ok binding → document.binding handle = .ok binding

theorem lasting (begins : start.Begins) (reached : start.LeadsTo stage)
    (leads : stage.LeadsTo later) : Lasting stage.document later.document := by
  have orderly : later.document.AllOrderly := by
    have changes := reached.changes.trans leads.changes
    rw [begins.document_eq] at changes
    exact Document.Changes.holds changes Document.AllOrderly.empty
      Document.AllOrderly.kept
  constructor
  case prefixes => exact fun held => (orderly _ _ held).tidy.prefixes
  case unreserved =>
    intro id element held declared member
    have unreserved := (orderly id element held).tidy.unreserved declared member
    exact ⟨unreserved "xml" (by decide), unreserved "xmlns" (by decide)⟩
  case meaning => exact fun denoted => leads.changes.extends _ _ denoted

def markup : List Builder.Event :=
  [.start "p:letter", .declare (some "p") "urn:a", .leaf "p:line", .close]

def letter : Document :=
  ⟨#[{ content := .document, children := [1] },
    { content := .element ⟨"letter", some ⟨1, 0⟩, [⟨some "p", "urn:a"⟩], []⟩,
      parent := some 0,
      children := [2] },
    { content := .element ⟨"line", some ⟨1, 0⟩, [], []⟩, parent := some 1 }]⟩

/-- A prefix is refused, a namespace is declared, a node is missing, and then all of the
letter is copied below its line. -/
def treatment : List Call :=
  [.operate (.declare 1 (some "p") "urn:b"), .resolve .empty ⟨some "q", "urn:b"⟩ 1,
    .copyNode .empty letter 9 2, .copyTree .empty letter 1 2]

theorem lasting_letter :
    LeadsTo (.written {}) (.there letter) ∧
      LeadsTo (.there letter) (.there (afterCalls letter treatment)) ∧
      Lasting letter (afterCalls letter treatment) ∧
      letter.binding ⟨1, 0⟩ = .ok ⟨some "p", "urn:a"⟩ ∧
      (afterCalls letter treatment).declarations 1 =
        .ok [⟨some "p", "urn:a"⟩, ⟨some "q", "urn:b"⟩] ∧
      (afterCalls letter treatment).size = 5 := by
  have built : (Document.build markup).run = .ok (.ok letter) := rfl
  have written := leadsTo_of_build built
  have treated := leadsTo_afterCalls letter treatment
  exact ⟨written, treated, lasting .written written treated, rfl, rfl, rfl⟩

end Stage

end ResultTree
