import ResultTree.Document.Edit
import ResultTree.Document.Scope

namespace ResultTree

/-! Documents written from the outside in, as markup is. Names are qualified,
and their prefixes are resolved when an element is closed, so that a declaration
made after the start of an element applies to the name of the element itself.
Building never stops: the first refusal is remembered, and the finished document
is withheld because of it. -/

namespace Builder

structure PendingAttribute where
  nsPrefix : Option String
  name : String
  value : String
deriving DecidableEq, Repr

structure OpenElement where
  node : NodeId
  nsPrefix : Option String
  attributes : List PendingAttribute := []
deriving DecidableEq, Repr

inductive Event
  | start (qname : String)
  | declare (nsPrefix : Option String) (uri : String)
  | attr (qname value : String)
  /-- Record a source line on the newest node. -/
  | line (line : Nat)
  | text (text : String)
  | comment (text : String)
  | close
  | leaf (qname : String)
deriving DecidableEq, Repr

end Builder

/-- A document being written: the elements still open, innermost first, the
newest node, and the first refusal met. -/
structure Builder where
  document : Document := .empty
  opened : List Builder.OpenElement := []
  last : Option NodeId := none
  refusal : Option Refusal := none
deriving DecidableEq, Repr

namespace Builder

def current (builder : Builder) : Option NodeId :=
  builder.opened.head?.map OpenElement.node

def parent (builder : Builder) : NodeId := builder.current.getD Document.root

def note (builder : Builder) (refusal : Refusal) : Builder :=
  { builder with refusal := builder.refusal.or (some refusal) }

def perform (builder : Builder) (edit : Edit α) : Reading Builder := do
  match ← edit.on builder.document with
  | (.ok _, document) => return { builder with document }
  | (.error refusal, document) => return { builder with document }.note refusal

def add (builder : Builder) (create : Edit NodeId) : Reading Builder := do
  let node := builder.document.size
  let builder ← builder.perform do Edit.appendChild builder.parent (← create)
  return { builder with last := some node }

def start (builder : Builder) (qname : String) : Reading Builder := do
  let (nsPrefix, name) := splitQName qname
  let node := builder.document.size
  let builder ← builder.add (Edit.newElement name)
  return { builder with opened := { node, nsPrefix } :: builder.opened }

def declare (builder : Builder) (nsPrefix : Option String) (uri : String) :
    Reading Builder := do
  match builder.current with
  | some node => builder.perform (Edit.declare node nsPrefix uri)
  | none => return builder

def attr (builder : Builder) (qname value : String) : Builder :=
  let (nsPrefix, name) := splitQName qname
  match builder.opened with
  | [] => builder
  | innermost :: outer =>
      let attributes := innermost.attributes ++ [{ nsPrefix, name, value }]
      { builder with opened := { innermost with attributes } :: outer }

def line (builder : Builder) (line : Nat) : Reading Builder := do
  match builder.last with
  | some node => builder.perform (Edit.setLine node line)
  | none => return builder

def resolve (builder : Builder) (node : NodeId) (nsPrefix : String) :
    Reading (Option Handle × Builder) := do
  match ← builder.document.findPrefix node (some nsPrefix) with
  | some handle => return (some handle, builder)
  | none => return (none, builder.note (.unboundPrefix node nsPrefix))

/-- The default namespace at a node. An empty one means no namespace. -/
def defaultNamespace (builder : Builder) (node : NodeId) : Reading (Option Handle) := do
  match ← builder.document.findPrefix node none with
  | none => return none
  | some handle =>
      let binding ← builder.document.binding handle
      return if binding.uri = "" then none else some handle

def settleName (builder : Builder) (element : OpenElement) : Reading Builder := do
  match element.nsPrefix with
  | some nsPrefix =>
      let (ns, builder) ← builder.resolve element.node nsPrefix
      builder.perform (Edit.setNamespace element.node ns)
  | none =>
      let ns ← builder.defaultNamespace element.node
      builder.perform (Edit.setNamespace element.node ns)

def settleAttribute (node : NodeId) (builder : Builder)
    (pending : PendingAttribute) : Reading Builder := do
  match pending.nsPrefix with
  | some nsPrefix =>
      let (ns, builder) ← builder.resolve node nsPrefix
      builder.perform (Edit.setAttribute node pending.name ns pending.value)
  | none => builder.perform (Edit.setAttribute node pending.name none pending.value)

def settle (builder : Builder) (element : OpenElement) : Reading Builder := do
  let builder ← builder.settleName element
  element.attributes.foldlM (settleAttribute element.node) builder

def close (builder : Builder) : Reading Builder :=
  match builder.opened with
  | [] => pure builder
  | innermost :: outer => { builder with opened := outer }.settle innermost

def apply (builder : Builder) : Event → Reading Builder
  | .start qname => builder.start qname
  | .declare nsPrefix uri => builder.declare nsPrefix uri
  | .attr qname value => pure (builder.attr qname value)
  | .line line => builder.line line
  | .text text => builder.add (Edit.newText text)
  | .comment text => builder.add (Edit.newComment text)
  | .close => builder.close
  | .leaf qname => do (← builder.start qname).close

def run (builder : Builder) (events : List Event) : Reading Builder :=
  events.foldlM apply builder

def closeAll (builder : Builder) : Reading Builder :=
  builder.opened.foldlM settle { builder with opened := [] }

def finish (builder : Builder) : Attempt Refusal Document := do
  let builder ← builder.closeAll
  match builder.refusal with
  | some refusal => throw refusal
  | none => return builder.document

end Builder

def Document.build (events : List Builder.Event) : Attempt Refusal Document := do
  let builder ← Builder.run {} events
  builder.finish

end ResultTree
