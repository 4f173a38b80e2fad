import ResultTree.Proofs.Document.Operation

namespace ResultTree.Document

/-! A link between two nodes is written down twice, with the parent and with the
child. In every document that operations lead to the two agree, and a child is
written down once. Whether links run in a circle is another matter. -/

structure Linked (document : Document) : Prop where
  top : ∃ node, document.nodes[root]? = some node ∧ node.content = .document ∧
    node.parent = none
  onlyTop : ∀ {id : NodeId} {node : Node}, document.nodes[id]? = some node →
    node.content = .document → id = root
  listed : ∀ {parent child : NodeId}, child ∈ document.childLinks parent ↔
    document.parentLink child = some parent
  once : ∀ parent, (document.childLinks parent).Nodup
  host : ∀ {parent : NodeId} {node : Node}, document.nodes[parent]? = some node →
    node.children ≠ [] → node.content.IsContainer

namespace Linked

variable {document : Document}

theorem rootInside (linked : document.Linked) : root < document.size := by
  rcases linked.top with ⟨_, found, _⟩
  exact lt_size_of_node found

theorem rootLoose (linked : document.Linked) : document.parentLink root = none := by
  rcases linked.top with ⟨_, found, _, loose⟩
  exact (parentLink_of found).trans loose

theorem parentInside (linked : document.Linked) {parent child : NodeId}
    (link : document.parentLink child = some parent) : parent < document.size :=
  lt_size_of_mem_childLinks (linked.listed.mpr link)

theorem childInside (linked : document.Linked) {parent child : NodeId}
    (member : child ∈ document.childLinks parent) : child < document.size :=
  lt_size_of_parentLink (linked.listed.mp member)

theorem childNotRoot (linked : document.Linked) {parent child : NodeId}
    (member : child ∈ document.childLinks parent) : child ≠ root := by
  intro same
  have link := linked.listed.mp member
  rw [same, linked.rootLoose] at link
  cases link

/-! ## Kept by every change -/

theorem nodes_empty {id : NodeId} :
    Document.empty.nodes[id]? =
      if id = root then some { content := .document } else none := by
  cases id <;> rfl

theorem empty : Linked .empty where
  top := ⟨_, rfl, rfl, rfl⟩
  onlyTop := by
    intro id node found _
    by_cases atRoot : id = root
    · exact atRoot
    · simp [nodes_empty, atRoot] at found
  listed := by
    intro parent child
    by_cases atRoot : parent = root <;> by_cases childAtRoot : child = root <;>
      simp [childLinks, parentLink, nodes_empty, atRoot, childAtRoot]
  once := by
    intro parent
    by_cases atRoot : parent = root <;> simp [childLinks, nodes_empty, atRoot]
  host := by
    intro parent node found children
    by_cases atRoot : parent = root <;> simp [nodes_empty, atRoot] at found
    simp [← found] at children

theorem allocate (linked : document.Linked) {content : Content}
    (fresh : content.IsFresh) :
    (document.allocate content).Linked where
  top := by
    rcases linked.top with ⟨node, found, shape⟩
    refine ⟨node, ?_, shape⟩
    rw [nodes_allocate, if_neg (Nat.ne_of_lt linked.rootInside), found]
  onlyTop := by
    intro id node found shape
    rw [nodes_allocate] at found
    split at found
    · cases found
      simp [show content = .document from shape, Content.IsFresh] at fresh
    · exact linked.onlyTop found shape
  listed := by simp [linked.listed]
  once := by simpa using linked.once
  host := by
    intro parent node found children
    rw [nodes_allocate] at found
    split at found
    · cases found
      exact absurd rfl children
    · exact linked.host found children

theorem attach (linked : document.Linked) {parent child : NodeId}
    (joinable : document.Joinable parent child) :
    (document.attach parent child).Linked where
  top := by
    rcases linked.top with ⟨node, found, shape, loose⟩
    have other : root ≠ child := joinable.notRoot.symm
    rw [nodes_attach, found]
    exact ⟨_, rfl, shape, by simp [other, loose]⟩
  onlyTop := by
    intro id node found shape
    rw [nodes_attach] at found
    rcases Option.map_eq_some_iff.mp found with ⟨before, beforeFound, same⟩
    subst same
    exact linked.onlyTop beforeFound shape
  listed := by
    intro upper lower
    have unlisted : child ∉ document.childLinks upper := fun member => by
      simpa [joinable.loose] using linked.listed.mp member
    rw [childLinks_attach joinable.hostInside, parentLink_attach joinable.inside]
    by_cases atParent : upper = parent <;> by_cases atChild : lower = child
    · simp [atParent, atChild]
    · simp [atParent, atChild, linked.listed]
    · simpa [atParent, atChild, Ne.symm atParent] using unlisted
    · simp [atParent, atChild, linked.listed]
  once := by
    intro upper
    rw [childLinks_attach joinable.hostInside]
    split
    · refine List.nodup_append.mpr ⟨linked.once upper, by simp, ?_⟩
      intro left leftMember right rightMember same
      rw [List.mem_singleton.mp rightMember] at same
      simpa [same, joinable.loose] using linked.listed.mp leftMember
    · exact linked.once upper
  host := by
    intro upper node found children
    rw [nodes_attach] at found
    rcases Option.map_eq_some_iff.mp found with ⟨before, beforeFound, same⟩
    subst same
    by_cases atParent : upper = parent
    · rcases joinable.host with ⟨host, hostFound, container⟩
      rw [atParent, hostFound] at beforeFound
      cases beforeFound
      exact container
    · have container := linked.host beforeFound (by simpa [atParent] using children)
      exact container

structure SameLinks (before after : Node) : Prop where
  parent : after.parent = before.parent
  children : after.children = before.children
  document : after.content = .document ↔ before.content = .document
  container : before.content.IsContainer → after.content.IsContainer

theorem of_sameLinks (linked : document.Linked) {changed : Document}
    (sameSize : changed.size = document.size)
    (same : ∀ {id : NodeId} {after : Node}, changed.nodes[id]? = some after →
      ∃ before, document.nodes[id]? = some before ∧ SameLinks before after) :
    changed.Linked := by
  have missing {id : NodeId} (none : changed.nodes[id]? = none) :
      document.nodes[id]? = .none :=
    nodes_eq_none_iff.mpr (sameSize ▸ nodes_eq_none_iff.mp none)
  have parents (id : NodeId) : changed.parentLink id = document.parentLink id := by
    cases found : changed.nodes[id]? with
    | none => simp [parentLink, found, missing found]
    | some after =>
        rcases same found with ⟨before, beforeFound, sameLinks⟩
        rw [parentLink_of found, parentLink_of beforeFound, sameLinks.parent]
  have children (id : NodeId) : changed.childLinks id = document.childLinks id := by
    cases found : changed.nodes[id]? with
    | none => simp [childLinks, found, missing found]
    | some after =>
        rcases same found with ⟨before, beforeFound, sameLinks⟩
        rw [childLinks_of found, childLinks_of beforeFound, sameLinks.children]
  refine ⟨?top, ?onlyTop, ?listed, ?once, ?host⟩
  case top =>
    rcases exists_node_iff.mpr (sameSize ▸ linked.rootInside) with ⟨after, found⟩
    rcases same found with ⟨before, beforeFound, sameLinks⟩
    rcases linked.top with ⟨_, topFound, shape, loose⟩
    rw [beforeFound] at topFound
    cases topFound
    exact ⟨after, found, sameLinks.document.mpr shape, sameLinks.parent.trans loose⟩
  case onlyTop =>
    intro id node found shape
    rcases same found with ⟨before, beforeFound, sameLinks⟩
    exact linked.onlyTop beforeFound (sameLinks.document.mp shape)
  case listed => simp [children, parents, linked.listed]
  case once => simpa [children] using linked.once
  case host =>
    intro parent node found some
    rcases same found with ⟨before, beforeFound, sameLinks⟩
    exact sameLinks.container (linked.host beforeFound (sameLinks.children ▸ some))

theorem line (linked : document.Linked) (target : NodeId) (line : Nat) :
    (document.modify target fun node => { node with line }).Linked := by
  apply linked.of_sameLinks (size_modify _ _)
  intro id after found
  rw [nodes_modify] at found
  split at found
  · rcases Option.map_eq_some_iff.mp found with ⟨before, beforeFound, same⟩
    subst same
    exact ⟨before, beforeFound, rfl, rfl, Iff.rfl, fun container => container⟩
  · exact ⟨after, found, rfl, rfl, Iff.rfl, fun container => container⟩

theorem putElement (linked : document.Linked) {target : NodeId} {element : Element}
    (held : document.content target = .ok (.element element)) (changed : Element) :
    (document.putElement target changed).Linked := by
  apply linked.of_sameLinks (size_putElement _ _)
  intro id after found
  rw [nodes_putElement] at found
  rcases Option.map_eq_some_iff.mp found with ⟨before, beforeFound, same⟩
  subst same
  refine ⟨before, beforeFound, rfl, rfl, ?_, ?_⟩ <;> by_cases atTarget : id = target
  · rcases content_eq_ok_iff.mp held with ⟨node, targetFound, shape⟩
    rw [atTarget, targetFound] at beforeFound
    cases beforeFound
    simp [atTarget, shape]
  · simp [atTarget]
  · simp [atTarget, Content.IsContainer]
  · simp [atTarget]

theorem kept {before after : Document} (change : Change before after)
    (linked : before.Linked) : after.Linked := by
  cases change with
  | attach joinable => exact linked.attach joinable
  | touch touch =>
      cases touch with
      | allocate fresh => exact linked.allocate fresh
      | line id line => exact linked.line id line
      | ownNamespace held ns => exact linked.putElement held _
      | attributes held _ _ => exact linked.putElement held _
      | declaration held _ => exact linked.putElement held _

end Linked

theorem Reachable.linked {document : Document} (reachable : document.Reachable) :
    document.Linked :=
  reachable.holds Linked.empty Linked.kept

theorem Changes.linked {before after : Document} (changes : Changes before after)
    (linked : before.Linked) : after.Linked :=
  Changes.holds changes linked Linked.kept

end ResultTree.Document
