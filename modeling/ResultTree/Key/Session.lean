import ResultTree.Document.Edit
import ResultTree.Key.Cache

namespace ResultTree.Key

/-! Key lookups in several documents that share definitions and a cache. The
session hands out the identities: an edited document keeps its own, and a copy
gets one that no document had before. -/

structure Identified where
  identity : DocumentId
  document : Document
deriving DecidableEq, Repr

structure Session where
  definitions : Definitions := .empty
  cache : Cache := .empty
  documents : Array Identified := #[]
  nextIdentity : DocumentId := 0
deriving DecidableEq, Repr

namespace Session

def addDocument (session : Session) (document : Document) : Session :=
  { session with
    documents := session.documents.push ⟨session.nextIdentity, document⟩
    nextIdentity := session.nextIdentity + 1 }

def document? (session : Session) (number : Nat) : Option Document :=
  session.documents[number]?.map Identified.document

def putDocument (session : Session) (number : Nat) (document : Document) : Session :=
  { session with documents := session.documents.modify number ({ · with document }) }

def renew (session : Session) (number : Nat) : Session :=
  { session with
    documents := session.documents.modify number
      ({ · with identity := session.nextIdentity })
    nextIdentity := session.nextIdentity + 1 }

def define (session : Session) (name : Name) (matchSource useSource : String)
    (scope : PrefixScope) : Attempt DefinitionError Session := do
  let definitions ← session.definitions.define name matchSource useSource scope
  return { session with definitions }

def lookup (session : Session) (target : Identified) (name : Name) (value : String) :
    Reading (List NodeId × Session) := do
  let (nodes, cache) ←
    session.cache.lookup session.definitions target.identity target.document name value
  return (nodes, { session with cache })

def release (session : Session) : Session := { session with cache := .empty }

end Session

end ResultTree.Key
