import ResultTree.Key.Expression
import ResultTree.Document.Traversal

namespace ResultTree.Key

/-! A use expression selects nodes and attributes. Each step goes from what is
selected so far to a new selection that keeps what is met first and drops what
is met again. -/

inductive Item
  | node (id : NodeId)
  | attribute (owner : NodeId) (index : Nat) (value : String)
deriving DecidableEq, Repr

def Item.text (document : Document) : Item → Reading String
  | .node id => document.stringValue id
  | .attribute _ _ value => pure value

def attributesOf (document : Document) (test : NameTest) (owner : NodeId) :
    Reading (List Item) := do
  (← document.attributes owner).zipIdx.filterMapM fun (held, index) => do
    let uri ← document.uri? held.ns
    return if test.accepts held.name uri then some (.attribute owner index held.value)
      else none

def Step.select (document : Document) : Step → Item → Reading (List Item)
  | .self, item => return [item]
  | .parent, .node id => return (← document.parent id).toList.map .node
  | .parent, .attribute owner _ _ => return [.node owner]
  | .child test, .node id => do
      return (← (← document.children id).filterM (test.accepts document)).map .node
  | .attribute test, .node id => attributesOf document test id
  | .child _, .attribute _ _ _ => return []
  | .attribute _, .attribute _ _ _ => return []

def Step.advance (document : Document) (selected : List Item) (step : Step) :
    Reading (List Item) := do
  return (← selected.mapM (step.select document)).flatten.eraseDups

namespace UseExpression

def selection (expression : UseExpression) (document : Document) (id : NodeId) :
    Reading (List Item) :=
  expression.steps.foldlM (Step.advance document) [.node id]

def values (expression : UseExpression) (document : Document) (id : NodeId) :
    Reading (List String) := do
  (← expression.selection document id).mapM (Item.text document)

end UseExpression

end ResultTree.Key
