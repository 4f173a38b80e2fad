import ResultTree.Proofs.Document.Change
import ResultTree.Transform.Copy

namespace ResultTree.AliasTable

/-! Copying changes a result in the way that operations on documents do, and in no
other, so that it keeps what they keep. -/

open Document (Touch Change)

variable {table : AliasTable} {source : Document}

theorem stepwise_resolve (wanted : Binding) (out : NodeId) :
    Edit.Stepwise Touch (table.resolve wanted out) := by
  unfold resolve
  split
  · exact .pure _
  · refine .bind .get fun result => .bind (.read _) fun own =>
      .bind (.read _) fun uri => ?_
    split
    · exact .pure _
    · refine .bind (.read _) fun found => ?_
      split
      · exact .pure _
      · refine .bind (.read _) fun isElement => ?_
        split
        · exact .attempt (.declare _ _ _)
        · exact .pure _

theorem stepwise_resolveAttribute (wanted : Binding) (out : NodeId) :
    Edit.Stepwise Touch (table.resolveAttribute wanted out) := by
  refine .bind (stepwise_resolve wanted out) fun found => ?_
  split
  · exact .pure _
  · refine .bind .get fun result => .bind (.read _) fun binding => ?_
    split
    · exact .pure _
    · refine .bind (.read _) fun visible => ?_
      simp only
      split
      · exact .pure _
      · split
        · exact .pure _
        · exact .attempt (.declare _ _ _)

theorem stepwise_declareAll (out : NodeId) :
    ∀ bindings, Edit.Stepwise Touch (table.declareAll out bindings)
  | [] => .pure _
  | _ :: rest => by
      refine .bind (.attempt (.declare _ _ _)) fun handle => ?_
      split
      · exact .pure _
      · exact .bind (stepwise_declareAll out rest) fun _ => .pure _

theorem stepwise_undeclareDefault (copy : NodeId) :
    Edit.Stepwise Touch (undeclareDefault copy) := by
  refine .bind .get fun result => .bind (.read _) fun found => ?_
  split
  · exact .pure _
  · refine .bind (.read _) fun binding => ?_
    split
    · exact .pure _
    · exact .bind (.declare _ _ _) fun _ => .pure _

theorem stepwise_standIn {resolve : Binding → Edit (Option Handle)}
    (stepwise : ∀ wanted, Edit.Stepwise Touch (resolve wanted)) :
    ∀ ns, Edit.Stepwise Touch (standIn source resolve ns)
  | none => .pure _
  | some _ => .bind (.read _) stepwise

theorem stepwise_copyAttribute (copy : NodeId) (held : Attribute) :
    Edit.Stepwise Touch (table.copyAttribute source copy held) :=
  .bind (stepwise_standIn (fun wanted => stepwise_resolveAttribute wanted copy) _)
    fun _ => .setAttribute _ _ _ _

theorem stepwise_copyElement (element : Element) (parent : NodeId) :
    Edit.Stepwise Change (table.copyElement source element parent) := by
  refine .bind (.appendElement parent _) fun copy => ?_
  refine .mono ?_ .touch
  refine .bind (stepwise_declareAll copy _) fun _ => ?_
  refine .bind (stepwise_standIn (fun wanted => stepwise_resolve wanted copy) _)
    fun ns => ?_
  refine .bind (.setNamespace copy ns) fun _ => ?_
  have attributes := Edit.Stepwise.forM (@stepwise_copyAttribute table source copy)
    element.attributes
  split
  · exact .bind (stepwise_undeclareDefault copy) fun _ =>
      .bind attributes fun _ => .pure _
  · exact .bind attributes fun _ => .pure _

theorem stepwise_appendNew {content : Content} (fresh : content.IsFresh)
    (parent : NodeId) :
    Edit.Stepwise Change (appendNew parent (Edit.allocate content)) :=
  .bind (.mono (.allocate fresh) .touch) fun _ =>
    .bind (.appendChild _ _) fun _ => .pure _

theorem stepwise_copyNode (node parent : NodeId) :
    Edit.Stepwise Change (table.copyNode source node parent) := by
  refine .bind (.read _) fun content => ?_
  split
  · exact .pure _
  · exact stepwise_copyElement _ _
  · exact @stepwise_appendNew (.text _) trivial _
  · exact @stepwise_appendNew (.comment _) trivial _
  · exact @stepwise_appendNew (.instruction _ _) trivial _

theorem stepwise_copyWithin (depth : Nat) (node parent : NodeId) :
    Edit.Stepwise Change (table.copyWithin source depth node parent) := by
  induction depth generalizing node parent with
  | zero => exact Edit.stepwise_of_unchanged fun _ => rfl
  | succ depth induction =>
      refine .bind (stepwise_copyNode node parent) fun copy => ?_
      refine .bind (.read _) fun children => .bind ?_ fun _ => .pure _
      exact .forM (fun child => .bind (induction child copy) fun _ => .pure _) children

end ResultTree.AliasTable
