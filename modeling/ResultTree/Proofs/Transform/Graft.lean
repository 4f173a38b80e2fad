import ResultTree.Proofs.Document.Descent
import ResultTree.Proofs.Transform.Node

namespace ResultTree

/-! Copying a node with all that is below it. The copies get the next addresses in
document order, and everything that was there stays as it is, but that the parent has
more children. What is known of a single copy is known of each of them at the place
where it stands in the end, because nothing above it changes after it is made. -/

namespace Document

def numbered (source : Document) (base : Nat) : List NodeId → List NodeId
  | [] => []
  | original :: rest =>
      base :: source.numbered (base + (source.subtree original).length) rest

def pairs (source : Document) (base : Nat) (originals : List NodeId) :
    List (NodeId × NodeId) :=
  (originals.flatMap source.subtree).zipIdx base

variable {source : Document}

theorem pairs_cons (base : Nat) (original : NodeId) (rest : List NodeId) :
    source.pairs base (original :: rest) =
      source.pairs base [original] ++
        source.pairs (base + (source.subtree original).length) rest := by
  simp [pairs, List.zipIdx_append]

theorem pairs_singleton (linked : source.Linked) {original : NodeId} {nodes : List NodeId}
    (way : source.Way original nodes) (inside : original < source.size) (base : Nat) :
    source.pairs base [original] =
      (original, base) :: source.pairs (base + 1) (source.childLinks original) := by
  simp [pairs, subtree_eq linked way inside, List.zipIdx_cons]

theorem mem_pairs_bounds {base : Nat} {originals : List NodeId} {original copy : NodeId}
    (member : (original, copy) ∈ source.pairs base originals) :
    base ≤ copy ∧ copy < base + (originals.flatMap source.subtree).length := by
  rcases List.mem_zipIdx member with ⟨lower, upper, _⟩
  exact ⟨lower, by omega⟩

end Document

namespace AliasTable

/-- A node holds what another one comes to at the place where it stands. -/
def StandsFor (table : AliasTable) (source after : Document) (original copy : NodeId) :
    Prop :=
  ∃ node copied above, source.nodes[original]? = some node ∧
    after.nodes[copy]? = some copied ∧ after.Way copy (copy :: above) ∧
    table.CopiesContent source ⟨copy, above.flatMap after.declared⟩ node.content
      copied.content

theorem StandsFor.element {table : AliasTable} {source after : Document}
    {original copy : NodeId} {held : Element}
    (stands : table.StandsFor source after original copy)
    (holds : source.content original = .ok (.element held)) :
    ∃ written copyNodes, after.Way copy (copy :: copyNodes) ∧
      after.content copy = .ok (.element (written.element held.name)) ∧
      Site.Admits ⟨copy, copyNodes.flatMap after.declared⟩ written ∧
      table.Copies source ⟨copy, copyNodes.flatMap after.declared⟩ held written := by
  rcases stands with ⟨node, copied, above, found, copyFound, way, content⟩
  have copyHeld := Document.content_of copyFound
  rw [Document.content_of found] at holds
  rw [Except.ok.inj holds] at content
  generalize copied.content = copyContent at copyHeld content
  cases content with
  | @element _ written admits copies =>
      exact ⟨written, above, way, copyHeld, admits, copies⟩

structure Copied (table : AliasTable) (source after : Document)
    (pairs : List (NodeId × NodeId)) (original copy : NodeId) : Prop where
  content : table.StandsFor source after original copy
  children : List.Forall₂ (fun child childCopy => (child, childCopy) ∈ pairs)
    (source.childLinks original) (after.childLinks copy)

/-- A result has become another one by copies of some nodes, with all that is below
them, at the end of `parent`. -/
structure Graft (table : AliasTable) (source before after : Document) (parent : NodeId)
    (originals : List NodeId) : Prop where
  changes : before.Changes after
  size : after.size = before.size + (originals.flatMap source.subtree).length
  old : ∀ {id : NodeId} {node : Node}, before.nodes[id]? = some node →
    after.nodes[id]? = some { node with
      children :=
        if id = parent then node.children ++ source.numbered before.size originals
        else node.children }
  copied : ∀ {original copy : NodeId},
    (original, copy) ∈ source.pairs before.size originals →
    table.Copied source after (source.pairs before.size originals) original copy

namespace Graft

variable {table : AliasTable} {source before mid after : Document} {parent : NodeId}
  {originals : List NodeId}

theorem parentLink_old (graft : table.Graft source before after parent originals)
    {id : NodeId} (old : id < before.size) :
    after.parentLink id = before.parentLink id := by
  rcases Document.exists_node_iff.mpr old with ⟨node, found⟩
  rw [Document.parentLink_of found, Document.parentLink_of (graft.old found)]

theorem childLinks_old (graft : table.Graft source before after parent originals)
    {id : NodeId} (old : id < before.size) (other : id ≠ parent) :
    after.childLinks id = before.childLinks id := by
  rcases Document.exists_node_iff.mpr old with ⟨node, found⟩
  rw [Document.childLinks_of found, Document.childLinks_of (graft.old found)]
  simp [other]

theorem declared_old (graft : table.Graft source before after parent originals)
    {id : NodeId} (old : id < before.size) : after.declared id = before.declared id := by
  rcases Document.exists_node_iff.mpr old with ⟨node, found⟩
  rw [Document.declared_of found, Document.declared_of (graft.old found)]

theorem way_old (graft : table.Graft source before after parent originals)
    (linked : before.Linked) {id : NodeId} {nodes : List NodeId}
    (way : before.Way id nodes) (old : id < before.size) : after.Way id nodes :=
  way.of_sameLinks fun passed member =>
    graft.parentLink_old (way.inside linked old passed member)

theorem hosts (graft : table.Graft source before after parent originals) {id : NodeId}
    (hosts : before.Hosts id) : after.Hosts id := by
  rcases hosts with ⟨node, found, container⟩
  exact ⟨_, graft.old found, container⟩

/-- What is a copy stays one when more is copied to another place. -/
theorem keeps (graft : table.Graft source mid after parent originals)
    (linked : mid.Linked) {pairs : List (NodeId × NodeId)} {original copy : NodeId}
    (copied : table.Copied source mid pairs original copy) (old : copy < mid.size)
    (other : copy ≠ parent) : table.Copied source after pairs original copy where
  content := by
    rcases copied.content with ⟨node, copy', above, found, copyFound, way, content⟩
    have inside := fun passed member =>
      way.inside linked old passed (List.mem_cons_of_mem _ member)
    refine ⟨node, _, above, found, graft.old copyFound, graft.way_old linked way old, ?_⟩
    have same : above.flatMap after.declared = above.flatMap mid.declared :=
      List.flatMap_congr fun passed member => graft.declared_old (inside passed member)
    rw [same]
    exact content
  children := by
    rw [graft.childLinks_old old other]
    exact copied.children

end Graft

theorem Copied.mono {table : AliasTable} {source after : Document}
    {pairs more : List (NodeId × NodeId)} {original copy : NodeId}
    (copied : table.Copied source after pairs original copy) (subset : pairs ⊆ more) :
    table.Copied source after more original copy where
  content := copied.content
  children := copied.children.imp fun _ _ member => subset member

theorem Graft.nil {table : AliasTable} {source before : Document} {parent : NodeId} :
    table.Graft source before before parent [] where
  changes := .refl
  size := rfl
  old := by
    intro id node found
    simp [found, Document.numbered]
  copied := by simp [Document.pairs]

theorem Graft.cons {table : AliasTable} {source before mid after : Document}
    {parent first : NodeId} {rest : List NodeId}
    (one : table.Graft source before mid parent [first])
    (others : table.Graft source mid after parent rest) (inside : parent < before.size)
    (linked : mid.Linked) : table.Graft source before after parent (first :: rest) where
  changes := one.changes.trans others.changes
  size := by
    have midSize := one.size
    have afterSize := others.size
    simp only [List.flatMap_cons, List.flatMap_nil, List.append_nil, List.length_append]
      at midSize afterSize ⊢
    omega
  old := by
    intro id node found
    have midSize : mid.size = before.size + (source.subtree first).length := by
      simpa using one.size
    rw [others.old (one.old found)]
    by_cases atParent : id = parent <;> simp [atParent, Document.numbered, midSize]
  copied := by
    have midSize : mid.size = before.size + (source.subtree first).length := by
      simpa using one.size
    intro original copy member
    rw [Document.pairs_cons, ← midSize] at member ⊢
    rcases List.mem_append.mp member with member | member
    · have bounds := Document.mem_pairs_bounds member
      have old : copy < mid.size := by rw [one.size]; exact bounds.2
      have other : copy ≠ parent := Nat.ne_of_gt (Nat.lt_of_lt_of_le inside bounds.1)
      exact (others.keeps linked (one.copied member) old other).mono
        (List.subset_append_left _ _)
    · exact (others.copied member).mono (List.subset_append_right _ _)

/-! ## One node, and all below it -/

theorem CopiesContent.isContainer {table : AliasTable} {source : Document} {site : Site}
    {content copied : Content} (copies : table.CopiesContent source site content copied)
    (container : content.IsContainer) : copied.IsContainer := by
  cases copies with
  | element _ _ => trivial
  | _ => exact absurd container id

variable {table : AliasTable} {source before : Document} {parent node : NodeId}
  {nodes above : List NodeId}

theorem mem_numbered_pairs (linked : source.Linked) {originals : List NodeId}
    (ends : source.AllEnd originals) (base : Nat) :
    List.Forall₂ (fun original copy => (original, copy) ∈ source.pairs base originals)
      originals (source.numbered base originals) := by
  induction originals generalizing base with
  | nil => exact .nil
  | cons first rest induction =>
      rw [Document.pairs_cons]
      rcases ends first (by simp) with ⟨inside, nodes, way⟩
      refine .cons ?_ ?_
      · rw [Document.pairs_singleton linked way inside]
        simp
      · have below :=
          induction (fun other member => ends other (List.mem_cons_of_mem _ member))
            (base + (source.subtree first).length)
        exact below.imp fun _ _ member => List.mem_append_right _ member

theorem allEnd_childLinks (linked : source.Linked) (way : source.Way node above) :
    source.AllEnd (source.childLinks node) :=
  fun _ member => ⟨linked.childInside member, _, way.child linked member⟩

section

variable {after : Document} {content copied : Content}

theorem Graft.copied_first (sourceLinked : source.Linked)
    (sourceWay : source.Way node above) (inside : node < source.size)
    (held : source.content node = .ok content) (linked : before.Linked)
    (hosts : before.Hosts parent) (way : before.Way parent nodes)
    (copies : table.CopiesContent source (before.siteBelow nodes) content copied)
    (changes : before.Changes (before.appended parent copied))
    (below : table.Graft source (before.appended parent copied) after before.size
      (source.childLinks node)) :
    table.Copied source after (source.pairs before.size [node]) node before.size where
  content := by
    rcases Document.content_eq_ok_iff.mp held with ⟨original, found, shape⟩
    have new := below.old (@Document.nodes_appended_new before parent copied)
    have newWay :=
      below.way_old (changes.linked linked) (way.appended linked hosts.inside)
        (by rw [Document.size_appended]; exact Nat.lt_succ_self _)
    refine ⟨original, _, nodes, found, new, newWay, ?_⟩
    have same : nodes.flatMap after.declared = nodes.flatMap before.declared := by
      apply List.flatMap_congr
      intro passed member
      have old := way.inside linked hosts.inside passed member
      rw [below.declared_old (Document.size_appended ▸ Nat.lt_succ_of_lt old),
        Document.declared_appended_old old]
    rw [same, shape]
    exact copies
  children := by
    have notParent : before.size ≠ parent := Nat.ne_of_gt hosts.inside
    have new := below.old (@Document.nodes_appended_new before parent copied)
    rw [Document.childLinks_of new,
      Document.pairs_singleton sourceLinked sourceWay inside]
    simp only [notParent, if_false, if_true, List.nil_append, Document.size_appended]
    have numbered :=
      mem_numbered_pairs sourceLinked (allEnd_childLinks sourceLinked sourceWay)
        (before.size + 1)
    exact numbered.imp fun _ _ member => List.mem_cons_of_mem _ member

theorem Graft.of_children (sourceLinked : source.Linked)
    (sourceWay : source.Way node above) (inside : node < source.size)
    (held : source.content node = .ok content) (linked : before.Linked)
    (hosts : before.Hosts parent) (way : before.Way parent nodes)
    (copies : table.CopiesContent source (before.siteBelow nodes) content copied)
    (changes : before.Changes (before.appended parent copied))
    (below : table.Graft source (before.appended parent copied) after before.size
      (source.childLinks node)) :
    table.Graft source before after parent [node] where
  changes := changes.trans below.changes
  size := by
    have size := below.size
    rw [Document.size_appended] at size
    rw [List.flatMap_singleton, Document.subtree_eq sourceLinked sourceWay inside,
      List.length_cons]
    omega
  old := by
    intro id earlier found
    have old := Document.lt_size_of_node found
    have appended := @Document.nodes_appended_old before parent copied id old
    rw [found] at appended
    have other : id ≠ before.size := Nat.ne_of_lt old
    rw [below.old appended]
    simp [other, Document.numbered]
  copied := by
    intro original copy member
    have first :=
      Graft.copied_first sourceLinked sourceWay inside held linked hosts way copies
        changes below
    rw [Document.pairs_singleton sourceLinked sourceWay inside] at member first ⊢
    rcases List.mem_cons.mp member with same | member
    · cases same
      exact first
    · rw [← @Document.size_appended before parent copied] at member ⊢
      exact (below.copied member).mono (List.subset_cons_self _ _)

end

/-! ## Copying has an answer -/

/-- An edit always ends with an answer and with copies of some nodes, at a parent that
can have children and whose way up ends. -/
def Grafts (table : AliasTable) (source : Document) {α : Type} (edit : Edit α)
    (answer : Document → α) (parent : NodeId) (originals : List NodeId) : Prop :=
  ∀ ⦃before : Document⦄ ⦃nodes : List NodeId⦄, before.Linked → before.Hosts parent →
    before.Way parent nodes →
    ∃ after, Edit.outcome edit before = (.ok (.ok (answer before)), after) ∧
      table.Graft source before after parent originals

theorem Grafts.drop {α : Type} {edit : Edit α} {answer : Document → α}
    {originals : List NodeId}
    (grafts : table.Grafts source edit answer parent originals) :
    table.Grafts source (do let _ ← edit) (fun _ => ()) parent originals := by
  intro before nodes linked hosts way
  rcases grafts linked hosts way with ⟨after, result, graft⟩
  exact ⟨after, Edit.outcome_bind_of result, graft⟩

theorem Grafts.forM {edit : NodeId → Edit Unit} {originals : List NodeId}
    (each : ∀ original ∈ originals,
      table.Grafts source (edit original) (fun _ => ()) parent [original]) :
    table.Grafts source (originals.forM edit) (fun _ => ()) parent originals := by
  induction originals with
  | nil => exact fun _ _ _ _ _ => ⟨_, rfl, .nil⟩
  | cons first rest induction =>
      intro before nodes linked hosts way
      rcases each first (by simp) linked hosts way with ⟨mid, result, one⟩
      have midLinked := one.changes.linked linked
      rcases induction (fun other member => each other (List.mem_cons_of_mem _ member))
        midLinked (one.hosts hosts) (one.way_old linked way hosts.inside) with
        ⟨after, resultRest, others⟩
      exact ⟨after, (Edit.outcome_bind_of result).trans resultRest,
        one.cons others hosts.inside midLinked⟩

theorem outcome_copyChildren {edit : NodeId → Edit Unit} {content copied : Content}
    (sourceLinked : source.Linked) (held : source.content node = .ok content)
    (linked : before.Linked) (hosts : before.Hosts parent) (way : before.Way parent nodes)
    (copies : table.CopiesContent source (before.siteBelow nodes) content copied)
    (changes : before.Changes (before.appended parent copied))
    (each : ∀ child ∈ source.childLinks node,
      table.Grafts source (edit child) (fun _ => ()) before.size [child]) :
    ∃ after,
      Edit.outcome ((source.childLinks node).forM edit) (before.appended parent copied) =
        (.ok (.ok ()), after) ∧
      table.Graft source (before.appended parent copied) after before.size
        (source.childLinks node) := by
  by_cases container : content.IsContainer
  · exact Grafts.forM each (changes.linked linked)
      ⟨_, Document.nodes_appended_new, copies.isContainer container⟩
      (way.appended linked hosts.inside)
  · have childless : source.childLinks node = [] := by
      rcases Document.content_eq_ok_iff.mp held with ⟨original, found, shape⟩
      rw [Document.childLinks_of found]
      by_contra children
      exact container (shape ▸ sourceLinked.host found children)
    rw [childless]
    exact ⟨_, rfl, .nil⟩

def KnownBelow (source : Document) (node : NodeId) : Prop :=
  ∀ below ∈ source.subtree node, ∀ element,
    source.content below = .ok (.element element) →
    source.Known element

theorem KnownBelow.child (linked : source.Linked) (way : source.Way node above)
    (inside : node < source.size) (known : KnownBelow source node) {child : NodeId}
    (member : child ∈ source.childLinks node) : KnownBelow source child := by
  intro below belowMember
  apply known below
  rw [Document.subtree_eq linked way inside]
  exact List.mem_cons_of_mem _ (List.mem_flatMap.mpr ⟨child, member, belowMember⟩)

theorem grafts_copyWithin (table : AliasTable) (linked : source.Linked)
    (orderly : source.AllOrderly) {depth : Nat} (way : source.Way node above)
    (inside : node < source.size) (notRoot : node ≠ Document.root)
    (known : KnownBelow source node) (enough : source.size < depth + above.length) :
    table.Grafts source (table.copyWithin source depth node parent) Document.size parent
      [node] := by
  induction depth generalizing node above parent with
  | zero =>
      have bound := way.length_le_size linked inside
      omega
  | succ depth induction =>
      intro before nodes beforeLinked hosts parentWay
      rcases Document.exists_node_iff.mpr inside with ⟨original, found⟩
      have held := Document.content_of found
      have notDocument : original.content ≠ .document := fun same =>
        notRoot (linked.onlyTop found same)
      have self : node ∈ source.subtree node := by
        rw [Document.subtree_eq linked way inside]
        exact List.mem_cons_self
      rcases outcome_copyNode table beforeLinked hosts parentWay held notDocument
        (fun element same => orderly node element (same ▸ held))
        (fun element same => known node self element (same ▸ held)) with
        ⟨copied, copies, changes, result⟩
      have children := Document.children_eq_childLinks inside
      have each : ∀ child ∈ source.childLinks node,
          table.Grafts source (do let _ ← table.copyWithin source depth child before.size)
            (fun _ => ()) before.size [child] := by
        intro child member
        have childEnough : source.size < depth + (child :: above).length := by
          rw [List.length_cons]
          omega
        exact (induction (way.child linked member) (linked.childInside member)
          (linked.childNotRoot member) (known.child linked way inside member)
          childEnough).drop
      rcases outcome_copyChildren linked held beforeLinked hosts parentWay copies
        changes each with ⟨after, resultBelow, graft⟩
      refine ⟨after, ?_,
        .of_children linked way inside held beforeLinked hosts parentWay copies
        changes graft⟩
      rw [copyWithin, Edit.outcome_bind_of result, Edit.bind_read_of children,
        Edit.outcome_bind_of resultBelow]
      rfl

end AliasTable

end ResultTree
