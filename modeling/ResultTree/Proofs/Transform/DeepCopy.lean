import ResultTree.Proofs.Transform.Correspondence

namespace ResultTree

/-! What a deep copy does to a result as a whole. The copies get the next addresses in
document order, each with the shape of its original, and of what was there before only the
parent changes, by the children that it gains. -/

def Content.shape : Content → Content
  | .element held => .element { name := held.name }
  | other => other

namespace Document

/-- `copy` is the address of the copy of `original`, where the copies of some nodes have
the addresses from `base` on. -/
def CopyAt (base : Nat) (originals : List NodeId) (original copy : NodeId) : Prop :=
  ∃ index, originals[index]? = some original ∧ copy = base + index

/-- A result has become another one by copies of `originals`, with those of `tops` at
the end of `parent`. -/
structure DeepCopied (source before after : Document) (parent : NodeId)
    (tops originals : List NodeId) : Prop where
  size : after.size = before.size + originals.length
  copied : ∀ {original copy : NodeId}, CopyAt before.size originals original copy →
    ∃ node made, source.nodes[original]? = some node ∧ after.nodes[copy]? = some made ∧
      made.content.shape = node.content.shape ∧
      List.Forall₂ (CopyAt before.size originals) node.children made.children
  old : ∃ copies, List.Forall₂ (CopyAt before.size originals) tops copies ∧
    ∀ {id : NodeId} {node : Node}, before.nodes[id]? = some node →
      after.nodes[id]? = some { node with
        children := if id = parent then node.children ++ copies else node.children }

variable {source : Document} {node : NodeId}

theorem mem_pairs_iff {base : Nat} {originals : List NodeId} {original copy : NodeId} :
    (original, copy) ∈ source.pairs base originals ↔
      CopyAt base (originals.flatMap source.subtree) original copy := by
  rw [pairs, List.mem_zipIdx_iff_le_and_getElem?_sub]
  constructor
  · rintro ⟨lower, listed⟩
    exact ⟨copy - base, listed, (Nat.add_sub_cancel' lower).symm⟩
  · rintro ⟨index, listed, rfl⟩
    exact ⟨Nat.le_add_right _ _, by rwa [Nat.add_sub_cancel_left]⟩

end Document

namespace AliasTable

open Document

variable {table : AliasTable} {source before after : Document} {parent : NodeId}

theorem CopiesContent.shape {site : Site} {content copied : Content}
    (copies : table.CopiesContent source site content copied) :
    copied.shape = content.shape := by
  cases copies <;> rfl

theorem Graft.deepCopied {originals : List NodeId}
    (graft : table.Graft source before after parent originals) (linked : source.Linked)
    (ends : source.AllEnd originals) :
    source.DeepCopied before after parent originals
      (originals.flatMap source.subtree) where
  size := graft.size
  copied := by
    intro original copy copyAt
    have copied := graft.copied (mem_pairs_iff.mpr copyAt)
    rcases copied.content with ⟨node, made, above, found, madeFound, _, content⟩
    refine ⟨node, made, found, madeFound, content.shape, ?_⟩
    have children := copied.children
    rw [childLinks_of found, childLinks_of madeFound] at children
    exact children.imp fun _ _ => mem_pairs_iff.mp
  old := by
    refine ⟨_, ?_, graft.old⟩
    exact (mem_numbered_pairs linked ends before.size).imp fun _ _ => mem_pairs_iff.mp

end AliasTable

namespace Run

open Document

/-- A deep copy of an attached node, whatever the aliases are, below a node that can have
children. The document node is not copied, but `parent` stands for it. -/
theorem deepCopied_copyTree {run : Run} {node parent : NodeId}
    (sourceReachable : run.source.Reachable) (known : run.source.AllKnown)
    (attached : run.source.Attached node) (resultReachable : run.result.Reachable)
    (acyclic : run.result.Acyclic) (hosts : run.result.Hosts parent) :
    ∃ visited result, run.source.descendants node = .ok visited ∧
      run.copyTree node parent =
        .ok (.ok (if node = root then parent else run.result.size), { run with result }) ∧
      run.source.DeepCopied run.result result parent (run.source.grafted node)
        (if node = root then visited.drop 1 else visited) := by
  have linked := sourceReachable.linked
  rcases attached.way linked with ⟨_, way⟩
  rcases acyclic parent with ⟨_, parentWay⟩
  rcases AliasTable.grafts_copyTree_of_known run.stylesheet.aliases linked
    sourceReachable.orderly known.knownBelow attached resultReachable.linked hosts
    parentWay with ⟨result, outcome, graft⟩
  have copied := graft.deepCopied linked (AliasTable.allEnd_grafted linked attached)
  rw [flatMap_subtree_grafted linked attached] at copied
  exact ⟨_, result, descendants_eq_subtree linked way (attached.inside linked),
    edit_of outcome, copied⟩

def letter : List Operation :=
  [.appendElement 0 "letter", .declare 1 (some "p") "urn:p", .newText "Dear",
    .newElement "name",
    .setAttribute 1 "kind" (some ⟨1, 0⟩) "short", .newComment "end", .appendChild 1 2,
    .appendChild 1 3, .newText "Ann", .appendChild 3 5, .appendChild 1 4]

def desk : List Operation :=
  [.appendElement 0 "desk", .newText "full", .appendChild 1 2, .setLine 1 7]

theorem copyable_letter {source result : Document}
    (sourceMade : after letter = some source) (resultMade : after desk = some result) :
    source.AllKnown ∧ source.Attached 1 ∧ result.Acyclic ∧ result.Hosts 1 := by
  cases sourceMade
  cases resultMade
  exact ⟨by decide, .single rfl, acyclic_of_climb (by decide), ⟨_, rfl, trivial⟩⟩

theorem deepCopied_copyTree_letter :
    ∃ source result, after letter = some source ∧ after desk = some result ∧
      ∃ visited copied, source.descendants 1 = .ok visited ∧
        copyTree { stylesheet := {}, source, result } 1 1 =
          .ok (.ok 3, { stylesheet := {}, source, result := copied }) ∧
        source.DeepCopied result copied 1 [1] visited := by
  have made : ∃ source result, after letter = some source ∧ after desk = some result :=
    ⟨_, _, rfl, rfl⟩
  rcases made with ⟨source, result, sourceMade, resultMade⟩
  rcases copyable_letter sourceMade resultMade with ⟨known, attached, acyclic, hosts⟩
  rcases @deepCopied_copyTree { stylesheet := {}, source, result } 1 1
    (reachable_of_after sourceMade) known attached (reachable_of_after resultMade)
    acyclic hosts with ⟨visited, copied, walked, answered, deep⟩
  have size : result.size = 3 := by cases resultMade; rfl
  refine ⟨source, result, sourceMade, resultMade, visited, copied, walked, ?_, deep⟩
  simpa [size, root] using answered

end Run

end ResultTree
