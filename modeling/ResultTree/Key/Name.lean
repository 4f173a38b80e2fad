namespace ResultTree.Key

/-! Keys are known by expanded names. -/

structure Name where
  localName : String
  uri : Option String
deriving DecidableEq, Repr

namespace Name

def text (name : Name) : String :=
  match name.uri with
  | some uri => "\x7b" ++ uri ++ "\x7d" ++ name.localName
  | none => name.localName

example : text ⟨"k", some "urn:a"⟩ = "\x7burn:a\x7dk" := rfl

def uriAtMost : Option String → Option String → Bool
  | none, _ => true
  | some _, none => false
  | some left, some right => !(right < left)

/-- Names are ordered by local name and then by URI, texts character by
character. -/
def atMost (left right : Name) : Bool :=
  if left.localName = right.localName then uriAtMost left.uri right.uri
  else left.localName < right.localName

def sortDistinct (names : List Name) : List Name :=
  (names.mergeSort atMost).eraseDups

end Name

end ResultTree.Key
