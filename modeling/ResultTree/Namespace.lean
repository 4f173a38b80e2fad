import ResultTree.Fault

namespace ResultTree

/-! A namespace binding gives a prefix a URI. Bindings belong to the element
that declares them; everything else refers to one by a handle, which names the
declaring node and the position among its declarations. Declarations are only
ever appended, so a handle that meant something once means the same for ever. -/

/-- The namespace of the transformation language itself. Its bindings describe a
stylesheet and have no place in a result tree. -/
def transformUri : String := "http://www.w3.org/1999/XSL/Transform"

def xmlUri : String := "http://www.w3.org/XML/1998/namespace"

/-- A declaration of `uri` under a prefix; without one it is the default
namespace. The absent prefix and the empty prefix are different. -/
structure Binding where
  nsPrefix : Option String
  uri : String
deriving DecidableEq, Repr

/-- One binding of one document: the declaring node and a position in its
declarations, both without a bound. -/
structure Handle where
  owner : NodeId
  index : Nat
deriving DecidableEq, Repr

namespace Binding

def xml : Binding := ⟨some "xml", xmlUri⟩

def reservedPrefixes : List String := ["xml", "xmlns"]

def text (binding : Binding) : String :=
  match binding.nsPrefix with
  | some nsPrefix => "xmlns:" ++ nsPrefix ++ "=\"" ++ binding.uri ++ "\""
  | none => "xmlns=\"" ++ binding.uri ++ "\""

example : text ⟨some "p", "urn:a"⟩ = "xmlns:p=\"urn:a\"" := rfl

def position? (bindings : List Binding) (nsPrefix : Option String) : Option Nat :=
  bindings.findIdx? (·.nsPrefix = nsPrefix)

end Binding

def splitQName (qname : String) : Option String × String :=
  match qname.toList.span (· ≠ ':') with
  | (nsPrefix, _ :: localName) => (some (String.ofList nsPrefix), String.ofList localName)
  | (_, []) => (none, qname)

private theorem span_loop_colon {front : List Char} (free : ':' ∉ front)
    (back read : List Char) (stops : ∀ next ∈ back.head?, next = ':') :
    List.span.loop (fun c => decide (c ≠ ':')) (front ++ back) read =
      (read.reverse ++ front, back) := by
  induction front generalizing read with
  | nil =>
      rw [List.append_nil]
      cases back with
      | nil => rfl
      | cons next back =>
          cases stops next rfl
          rfl
  | cons first front induction =>
      rcases not_or.mp (mt List.mem_cons.mpr free) with ⟨other, free⟩
      have passed : decide (first ≠ ':') = true := decide_eq_true (Ne.symm other)
      calc List.span.loop (fun c => decide (c ≠ ':')) (first :: (front ++ back)) read
        _ = List.span.loop (fun c => decide (c ≠ ':')) (front ++ back)
            (first :: read) := by
          change (match decide (first ≠ ':') with | true => _ | false => _) = _
          rw [passed]
        _ = ((first :: read).reverse ++ front, back) := induction free (first :: read)
        _ = (read.reverse ++ first :: front, back) := by simp

theorem splitQName_of_colon {nsPrefix : String} (free : ':' ∉ nsPrefix.toList)
    (localName : String) :
    splitQName (nsPrefix ++ ":" ++ localName) = (some nsPrefix, localName) := by
  have letters : (nsPrefix ++ ":" ++ localName).toList =
      nsPrefix.toList ++ ':' :: localName.toList := by simp
  have divided := span_loop_colon free (':' :: localName.toList) [] (by simp)
  rw [splitQName, letters, List.span, divided]
  simp

theorem splitQName_of_notMem {qname : String} (free : ':' ∉ qname.toList) :
    splitQName qname = (none, qname) := by
  have whole := span_loop_colon free [] [] (by simp)
  rw [List.append_nil] at whole
  rw [splitQName, List.span, whole]

theorem exists_first_colon {qname : String} (member : ':' ∈ qname.toList) :
    ∃ nsPrefix localName, qname = nsPrefix ++ ":" ++ localName ∧
      ':' ∉ nsPrefix.toList := by
  rcases List.eq_append_cons_of_mem member with ⟨front, back, split, free⟩
  refine ⟨String.ofList front, String.ofList back, ?_, by simpa using free⟩
  rw [← String.toList_inj, split]
  simp

/-- The prefix is what stands before the first colon. -/
theorem splitQName_eq_some_iff {qname nsPrefix localName : String} :
    splitQName qname = (some nsPrefix, localName) ↔
      qname = nsPrefix ++ ":" ++ localName ∧ ':' ∉ nsPrefix.toList := by
  constructor
  · intro split
    by_cases member : ':' ∈ qname.toList
    · rcases exists_first_colon member with ⟨other, rest, rfl, free⟩
      rw [splitQName_of_colon free] at split
      cases split
      exact ⟨rfl, free⟩
    · rw [splitQName_of_notMem member] at split
      cases split
  · rintro ⟨rfl, free⟩
    exact splitQName_of_colon free localName

/-- A name has no prefix exactly if it has no colon, and it is local as a whole then. -/
theorem splitQName_eq_none_iff {qname localName : String} :
    splitQName qname = (none, localName) ↔ localName = qname ∧ ':' ∉ qname.toList := by
  constructor
  · intro split
    by_cases member : ':' ∈ qname.toList
    · rcases exists_first_colon member with ⟨other, rest, rfl, free⟩
      rw [splitQName_of_colon free] at split
      cases split
    · rw [splitQName_of_notMem member] at split
      cases split
      exact ⟨rfl, member⟩
  · rintro ⟨rfl, free⟩
    exact splitQName_of_notMem free

/-- Further colons belong to the local name, and nothing has to stand before the first. -/
example : splitQName ":a:b" = (some "", "a:b") := by decide

end ResultTree
