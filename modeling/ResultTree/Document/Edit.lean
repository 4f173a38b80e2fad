import ResultTree.Document.Basic

namespace ResultTree

/-! Changing a document. An operation may be refused, or may end in a fault. What
it had done up to then stays done either way, so that a document can be looked at
and used however the last edit of it ended. -/

inductive Refusal
  | notAnElement (node : NodeId)
  | notAContainer (node : NodeId)
  | alreadyAttached (node : NodeId)
  | prefixInUse (node : NodeId) (nsPrefix : Option String)
  | reservedPrefix (nsPrefix : String)
  | unboundPrefix (node : NodeId) (nsPrefix : String)
deriving DecidableEq, Repr

def Refusal.message : Refusal → String
  | .notAnElement node => "node " ++ node.text ++ " is not an element"
  | .notAContainer node => "node " ++ node.text ++ " cannot have children"
  | .alreadyAttached node => "node " ++ node.text ++ " already has a parent"
  | .prefixInUse node nsPrefix =>
      "prefix `" ++ nsPrefix.getD "#default" ++ "` is already declared on node " ++
        node.text
  | .reservedPrefix nsPrefix => "prefix `" ++ nsPrefix ++ "` is reserved"
  | .unboundPrefix node nsPrefix =>
      "prefix `" ++ nsPrefix ++ "` is not bound on node " ++ node.text

abbrev Edit := ExceptT Refusal (ExceptT Fault (StateM Document))

namespace Document

def allocate (document : Document) (content : Content) : Document :=
  { document with nodes := document.nodes.push { content } }

def modify (document : Document) (id : NodeId) (change : Node → Node) : Document :=
  { document with nodes := document.nodes.modify id change }

def attach (document : Document) (parent child : NodeId) : Document :=
  (document.modify child fun node => { node with parent := some parent }).modify parent
    fun node => { node with children := node.children ++ [child] }

def putElement (document : Document) (id : NodeId) (element : Element) : Document :=
  document.modify id fun node => { node with content := .element element }

/-- Replace the attribute that has the name and the namespace URI of a new one,
or else add the new one at the end. Only attributes of the same name are asked
for their namespace. -/
def assign (document : Document) (added : Attribute) (uri : Option String) :
    List Attribute → Reading (List Attribute)
  | [] => pure [added]
  | present :: rest => do
      if present.name = added.name then
        if (← document.uri? present.ns) = uri then return added :: rest
        else return present :: (← document.assign added uri rest)
      else return present :: (← document.assign added uri rest)

end Document

namespace Edit

def outcome (edit : Edit α) (document : Document) :
    Reading (Except Refusal α) × Document :=
  edit.run.run.run document

/-- Carry an edit out for one who gives up at a fault: what it answers, and the
document that it leaves. -/
def on (edit : Edit α) (document : Document) : Reading (Except Refusal α × Document) :=
  let (ending, changed) := edit.outcome document
  ending.map fun answer => (answer, changed)

def attempt (edit : Edit α) : Edit (Option α) :=
  tryCatch (some <$> edit) fun _ => pure none

/-! How an edit is carried out follows its parts. -/

variable {α β : Type}

@[simp] theorem outcome_pure (answer : α) (document : Document) :
    outcome (pure answer) document = (.ok (.ok answer), document) := rfl

@[simp] theorem outcome_get (document : Document) :
    outcome get document = (.ok (.ok document), document) := rfl

@[simp] theorem outcome_set (document changed : Document) :
    outcome (set changed) document = (.ok (.ok ()), changed) := rfl

@[simp] theorem outcome_modify (change : Document → Document) (document : Document) :
    outcome (modify change) document = (.ok (.ok ()), change document) := rfl

@[simp] theorem outcome_throw (refusal : Refusal) (document : Document) :
    outcome (throw refusal : Edit α) document = (.ok (.error refusal), document) := rfl

@[simp] theorem outcome_read (reading : Reading α) (document : Document) :
    outcome (liftM reading : Edit α) document = (reading.map .ok, document) := by
  cases reading <;> rfl

theorem outcome_bind (edit : Edit α) (next : α → Edit β) (document : Document) :
    outcome (edit >>= next) document =
      match outcome edit document with
      | (.ok (.ok answer), changed) => outcome (next answer) changed
      | (.ok (.error refusal), changed) => (.ok (.error refusal), changed)
      | (.error fault, changed) => (.error fault, changed) := by
  simp only [outcome, bind, ExceptT.bind, ExceptT.mk, ExceptT.run, StateT.bind,
    StateT.run, ExceptT.bindCont]
  obtain ⟨ending, changed⟩ := edit document
  cases ending with
  | error fault => rfl
  | ok answer => cases answer <;> rfl

theorem outcome_map (change : α → β) (edit : Edit α) (document : Document) :
    outcome (change <$> edit) document =
      ((outcome edit document).1.map (·.map change), (outcome edit document).2) := by
  simp only [outcome, Functor.map, ExceptT.map, ExceptT.mk, ExceptT.run, ExceptT.bind,
    StateT.bind, StateT.run, bind, ExceptT.bindCont]
  obtain ⟨ending, changed⟩ := edit document
  cases ending with
  | error fault => rfl
  | ok answer => cases answer <;> rfl

theorem outcome_attempt (edit : Edit α) (document : Document) :
    outcome (attempt edit) document =
      ((outcome edit document).1.map fun answer => .ok answer.toOption,
        (outcome edit document).2) := by
  have carried := outcome_map some edit document
  simp only [attempt, tryCatch, tryCatchThe, MonadExceptOf.tryCatch, ExceptT.tryCatch,
    outcome, ExceptT.run, ExceptT.mk, ExceptT.bind, StateT.bind, StateT.run, bind]
    at carried ⊢
  rw [carried]
  obtain ⟨ending, changed⟩ := edit document
  cases ending with
  | error fault => rfl
  | ok answer => cases answer <;> rfl

def allocate (content : Content) : Edit NodeId :=
  modifyGet fun document => (document.size, document.allocate content)

def newElement (name : String) : Edit NodeId := allocate (.element { name })

def newText (text : String) : Edit NodeId := allocate (.text text)

def newComment (text : String) : Edit NodeId := allocate (.comment text)

def newInstruction (target data : String) : Edit NodeId :=
  allocate (.instruction target data)

/-- Attach a detached node as the last child of `parent`. Nothing else is asked
of the two nodes: a detached node may be attached to itself or below itself. -/
def appendChild (parent child : NodeId) : Edit Unit := do
  let document ← get
  match ← document.content parent with
  | .document | .element _ =>
      if child = Document.root then throw (.alreadyAttached child)
      else
        match ← document.parent child with
        | some _ => throw (.alreadyAttached child)
        | none => set (document.attach parent child)
  | _ => throw (.notAContainer parent)

/-- Create an element and append it to `parent`. Where that is refused or ends in
a fault, the element stays behind detached. -/
def appendElement (parent : NodeId) (name : String) : Edit NodeId := do
  let child ← newElement name
  appendChild parent child
  return child

example : (outcome (appendElement 99 "lost") .empty).2 =
    Document.empty.allocate (.element { name := "lost" }) := rfl

def setLine (id : NodeId) (line : Nat) : Edit Unit := do
  let document ← get
  let _ ← document.node id
  set (document.modify id fun node => { node with line })

def elementAt (id : NodeId) : Edit Element := do
  match ← (← get).element? id with
  | some element => return element
  | none => throw (.notAnElement id)

def setNamespace (id : NodeId) (ns : Option Handle) : Edit Unit := do
  let element ← elementAt id
  modify (·.putElement id { element with ns })

def setAttribute (id : NodeId) (name : String) (ns : Option Handle) (value : String) :
    Edit Unit := do
  let document ← get
  let uri ← document.uri? ns
  let attributes ← document.assign ⟨name, ns, value⟩ uri (← document.attributes id)
  let element ← elementAt id
  modify (·.putElement id { element with attributes })

def declare (id : NodeId) (nsPrefix : Option String) (uri : String) : Edit Handle := do
  match nsPrefix.filter (· ∈ Binding.reservedPrefixes) with
  | some reserved => throw (.reservedPrefix reserved)
  | none =>
      let element ← elementAt id
      match Binding.position? element.declarations nsPrefix with
      | some _ => throw (.prefixInUse id nsPrefix)
      | none =>
          let declarations := element.declarations ++ [⟨nsPrefix, uri⟩]
          modify (·.putElement id { element with declarations })
          return ⟨id, element.declarations.length⟩

end Edit

end ResultTree
