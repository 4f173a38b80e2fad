import ResultTree.Key.Expression

namespace ResultTree.Key

/-! The last test of a path is put to the node itself, each earlier one to the
next ancestor. -/

def climbs (document : Document) : List NodeTest → NodeId → Reading Bool
  | [], _ => pure true
  | test :: outer, id => do
      match ← document.parent id with
      | none => return false
      | some parent =>
          if ← test.accepts document parent then climbs document outer parent
          else return false

def endsPath (document : Document) (path : List NodeTest) (id : NodeId) :
    Reading Bool := do
  match path.reverse with
  | [] => return false
  | last :: outer =>
      if ← last.accepts document id then climbs document outer id
      else return false

def Pattern.accepts (pattern : Pattern) (document : Document) (id : NodeId) :
    Reading Bool :=
  pattern.alternatives.anyM fun path => endsPath document path id

end ResultTree.Key
