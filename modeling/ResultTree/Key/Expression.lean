import ResultTree.Document.Basic

namespace ResultTree.Key

/-! Compiled expressions hold URIs in place of prefixes, so their meaning does
not depend on where they were written. A match pattern climbs from a node
through its ancestors and knows only tests; a use expression walks from a node
along steps. -/

inductive NameTest
  | any
  | inNamespace (uri : String)
  | named (uri : Option String) (localName : String)
deriving DecidableEq, Repr

inductive NodeTest
  | ofName (test : NameTest)
  | text
  | anyNode
deriving DecidableEq, Repr

inductive Step
  | child (test : NodeTest)
  | attribute (test : NameTest)
  | self
  | parent
deriving DecidableEq, Repr

/-- Alternatives, each a path of tests from an ancestor down to the node. -/
structure Pattern where
  alternatives : List (List NodeTest)
deriving DecidableEq, Repr

structure UseExpression where
  steps : List Step
deriving DecidableEq, Repr

def NameTest.accepts (test : NameTest) (localName : String) (uri : Option String) :
    Bool :=
  match test with
  | .any => true
  | .inNamespace wanted => uri = some wanted
  | .named wanted name => name = localName && wanted = uri

theorem NameTest.accepts_iff {test : NameTest} {localName : String}
    {uri : Option String} :
    test.accepts localName uri = true ↔
      test = .any ∨ (∃ wanted, test = .inNamespace wanted ∧ uri = some wanted) ∨
        test = .named uri localName := by
  cases test <;> simp [accepts, and_comm]

/-- The document node is nobody's child, so that no test accepts it. The namespace of an
element is looked at for every name test. -/
def NodeTest.accepts (test : NodeTest) (document : Document) (id : NodeId) :
    Reading Bool := do
  match test, ← document.content id with
  | _, .document => return false
  | .anyNode, _ => return true
  | .text, .text _ => return true
  | .ofName test, .element element =>
      return test.accepts element.name (← document.uri? element.ns)
  | _, _ => return false

theorem NodeTest.accepts_iff {test : NodeTest} {document : Document} {id : NodeId} :
    test.accepts document id = .ok true ↔
      ∃ content, document.content id = .ok content ∧
        (test = .anyNode ∧ content ≠ .document ∨
          test = .text ∧ (∃ text, content = .text text) ∨
          ∃ name element uri, test = .ofName name ∧ content = .element element ∧
            document.uri? element.ns = .ok uri ∧
            name.accepts element.name uri = true) := by
  rw [accepts]
  cases held : document.content id with
  | error fault => simp [bind, Except.bind]
  | ok content =>
      cases test <;> cases content <;> simp [pure, Except.pure, bind, Except.bind]
      case ofName.element test element =>
        cases known : document.uri? element.ns <;> simp

end ResultTree.Key
