import ResultTree.Proofs.Document.Generations
import ResultTree.Proofs.Key.Steps

namespace ResultTree.Key

/-! In which order a use expression selects. All that is selected at one time lies at one
depth of the tree, since every step goes to one depth only: nodes of this depth, or
attributes of nodes of this depth, in document order. Where children lead to their
parents, or attributes to their elements, dropping what is met again restores this
order. -/

/-! ## Dropping what is met again -/

section

variable {α β : Type} [DecidableEq α]

theorem eraseDups_sublist (items : List α) : items.eraseDups.Sublist items := by
  induction items with
  | nil => exact .slnil
  | cons first rest induction =>
      rw [List.eraseDups_cons, eraseDups_filter]
      apply List.Sublist.cons_cons
      exact List.filter_sublist.trans induction

theorem eraseDups_flatMap_sublist {γ : Type} {keys : List γ} {name : γ → α}
    {group : γ → List β} {next : β → List α}
    (leads : ∀ key ∈ keys, ∀ item ∈ group key, next item = [name key]) {items : List β}
    (within : items.Sublist (keys.flatMap group)) :
    (items.flatMap next).eraseDups.Sublist (keys.map name) := by
  induction keys generalizing items with
  | nil => simp [List.sublist_nil.mp within]
  | cons key others induction =>
      rcases List.sublist_append_iff.mp within with
        ⟨here, later, rfl, hereWithin, laterWithin⟩
      have hereLeads : ∀ item ∈ here, next item = [name key] := fun item member =>
        leads key (by simp) item (hereWithin.subset member)
      have laterKeys : (later.flatMap next).eraseDups.Sublist (others.map name) :=
        induction (fun key member => leads key (List.mem_cons_of_mem _ member))
          laterWithin
      cases here with
      | nil => exact .cons _ laterKeys
      | cons first more =>
          have gone : (more.flatMap next).filter (fun other => !(other == name key)) =
              [] := by
            apply List.filter_eq_nil_iff.mpr
            intro other member
            rcases List.mem_flatMap.mp member with ⟨item, itemMember, member⟩
            rw [hereLeads item (List.mem_cons_of_mem _ itemMember)] at member
            simp [List.mem_singleton.mp member]
          rw [List.flatMap_append, List.flatMap_cons, hereLeads first (by simp),
            List.append_assoc, List.singleton_append, List.eraseDups_cons,
            List.filter_append, gone, List.nil_append, eraseDups_filter]
          apply List.Sublist.cons_cons
          exact List.filter_sublist.trans laterKeys

end

/-! ## Document order -/

variable {document : Document} {id : NodeId} {item : Item} {items : List Item}

def attributeItems (document : Document) (id : NodeId) : List Item :=
  (heldAttributes document id).zipIdx.map (Item.ofHeld id)

/-- All nodes below the document node in document order, each before its attributes and
these by position. -/
def allItems (document : Document) : Reading (List Item) := do
  let read (id : NodeId) : Reading (List Item) := do
    return .node id :: (← document.attributes id).zipIdx.map (Item.ofHeld id)
  return (← (← document.descendants Document.root).mapM read).flatten

def itemsAt (document : Document) (id : NodeId) : List Item :=
  .node id :: attributeItems document id

theorem place_of_mem_attributeItems (member : item ∈ attributeItems document id) :
    item.place = id := by
  rcases List.mem_map.mp member with ⟨_, _, rfl⟩
  rfl

theorem place_of_mem_itemsAt (member : item ∈ itemsAt document id) : item.place = id := by
  rcases List.mem_cons.mp member with rfl | member
  · rfl
  · exact place_of_mem_attributeItems member

theorem nodup_itemsAt (id : NodeId) : (itemsAt document id).Nodup := by
  apply List.nodup_cons.mpr
  constructor
  · intro member
    rcases List.mem_map.mp member with ⟨_, _, same⟩
    cases same
  · have positions : ((heldAttributes document id).zipIdx.map Prod.snd).Nodup := by
      rw [List.zipIdx_map_snd]
      exact List.nodup_range'
    apply List.pairwise_map.mpr
    apply (List.pairwise_map.mp positions).imp
    intro left right different same
    injection same with _ index
    exact different index

theorem nodup_items (linked : document.Linked) :
    ((document.subtree Document.root).flatMap (itemsAt document)).Nodup := by
  apply List.nodup_flatMap.mpr
  refine ⟨fun id _ => nodup_itemsAt id, ?_⟩
  apply linked.nodup_subtree_root.imp
  intro left right different item inLeft inRight
  exact different
    ((place_of_mem_itemsAt inLeft).symm.trans (place_of_mem_itemsAt inRight))

theorem allItems_eq (linked : document.Linked) :
    allItems document =
      .ok ((document.subtree Document.root).flatMap (itemsAt document)) := by
  have inside : ∀ id ∈ document.subtree Document.root, id < document.size :=
    fun id member => Document.inside_of_mem_preorder linked linked.rootInside member
  have read (id : NodeId) (member : id ∈ document.subtree Document.root) :
      (do return .node id :: (← document.attributes id).zipIdx.map (Item.ofHeld id) :
        Reading (List Item)) = .ok (itemsAt document id) := by
    rw [attributes_eq_heldAttributes (inside id member)]
    rfl
  rw [allItems, linked.descendants_root, Reading.ok_bind, Reading.mapM_eq read,
    List.flatMap_def]
  rfl

/-! ## One depth at a time -/

/-- Items in document order, all nodes of one depth or all attributes of such nodes. -/
inductive Level (document : Document) : List Item → Prop
  | nodes (depth : Nat) {items : List Item}
      (within : items.Sublist ((document.generation depth Document.root).map .node)) :
      Level document items
  | attributes (depth : Nat) {items : List Item}
      (within : items.Sublist
        ((document.generation depth Document.root).flatMap (attributeItems document))) :
      Level document items

theorem Level.sublist (linked : document.Linked) (level : Level document items) :
    items.Sublist ((document.subtree Document.root).flatMap (itemsAt document)) := by
  cases level with
  | nodes depth within =>
      have alone : ((document.generation depth Document.root).map Item.node).Sublist
          ((document.generation depth Document.root).flatMap (itemsAt document)) := by
        rw [List.map_eq_flatMap]
        exact .flatMap_right _ fun id _ => .cons_cons _ (List.nil_sublist _)
      exact (within.trans alone).trans ((linked.generation_sublist depth).flatMap _)
  | «attributes» depth within =>
      have owned : ((document.generation depth Document.root).flatMap
          (attributeItems document)).Sublist
          ((document.generation depth Document.root).flatMap (itemsAt document)) :=
        .flatMap_right _ fun id _ => List.sublist_cons_self _ _
      exact (within.trans owned).trans ((linked.generation_sublist depth).flatMap _)

theorem Level.thinned (level : Level document items) {fewer : List Item}
    (sublist : fewer.Sublist items) : Level document fewer := by
  cases level with
  | nodes depth within => exact .nodes depth (sublist.trans within)
  | «attributes» depth within => exact .attributes depth (sublist.trans within)

theorem level_nil : Level document [] :=
  .nodes 0 (List.nil_sublist _)

theorem Level.parents (linked : document.Linked) (level : Level document items) :
    Level document (items.flatMap (Step.parent.choices document)).eraseDups := by
  cases level with
  | nodes depth within =>
      cases depth with
      | zero =>
          have nothing : items.flatMap (Step.parent.choices document) = [] := by
            apply List.flatMap_eq_nil_iff.mpr
            intro item member
            cases List.mem_singleton.mp (within.subset member)
            simp [Step.choices, linked.rootLoose]
          rw [nothing]
          exact level_nil
      | succ depth =>
          -- The children of one node stand together, and lead to nothing but this node.
          rw [Document.generation_succ, List.map_flatMap] at within
          apply Level.nodes depth
          apply eraseDups_flatMap_sublist ?_ within
          intro id _ item member
          rcases List.mem_map.mp member with ⟨child, listed, rfl⟩
          simp [Step.choices, linked.listed.mp listed]
  | «attributes» depth within =>
      apply Level.nodes depth
      apply eraseDups_flatMap_sublist ?_ within
      intro id _ item member
      rcases List.mem_map.mp member with ⟨_, _, rfl⟩
      rfl

theorem flatMap_choices_of_attributes {step : Step} {ids : List NodeId}
    (within : items.Sublist (ids.flatMap (attributeItems document)))
    (nowhere : ∀ owner place, step.choices document (Item.ofHeld owner place) = []) :
    items.flatMap (step.choices document) = [] := by
  apply List.flatMap_eq_nil_iff.mpr
  intro item member
  rcases List.mem_flatMap.mp (within.subset member) with ⟨owner, _, member⟩
  rcases List.mem_map.mp member with ⟨place, _, rfl⟩
  exact nowhere owner place

/-- Every step goes from one level to one level. -/
theorem Level.advance (linked : document.Linked) (level : Level document items)
    (step : Step) :
    Level document (items.flatMap (step.choices document)).eraseDups := by
  have thin {more : List Item} (level : Level document more) :
      Level document more.eraseDups :=
    level.thinned (eraseDups_sublist more)
  cases step with
  | self =>
      apply thin
      have same : items.flatMap (Step.self.choices document) = items :=
        List.flatMap_singleton' items
      rwa [same]
  | parent => exact level.parents linked
  | child test =>
      apply thin
      cases level with
      | nodes depth within =>
          apply Level.nodes (depth + 1)
          apply (within.flatMap _).trans
          rw [Document.generation_succ, List.flatMap_map, List.map_flatMap]
          exact .flatMap_right _ fun id _ => List.filter_sublist.map _
      | «attributes» depth within =>
          rw [flatMap_choices_of_attributes within fun _ _ => rfl]
          exact level_nil
  | «attribute» test =>
      apply thin
      cases level with
      | nodes depth within =>
          apply Level.attributes depth
          apply (within.flatMap _).trans
          rw [List.flatMap_map]
          exact .flatMap_right _ fun id _ => List.filter_sublist.map _
      | «attributes» depth within =>
          rw [flatMap_choices_of_attributes within fun _ _ => rfl]
          exact level_nil

theorem Level.ends (linked : document.Linked) (level : Level document items)
    (steps : List Step) :
    Level document (items.flatMap (ends document steps)).eraseDups := by
  induction steps generalizing items with
  | nil =>
      have same : items.flatMap (Key.ends document []) = items :=
        List.flatMap_singleton' items
      rw [same]
      exact level.thinned (eraseDups_sublist items)
  | cons step steps induction =>
      rw [← eraseDups_ends_cons]
      exact induction (level.advance linked step)

theorem level_of_attached (linked : document.Linked) (attached : document.Attached id) :
    Level document [.node id] := by
  rcases attached.exists_generation linked with ⟨depth, member⟩
  apply Level.nodes depth
  exact List.singleton_sublist.mpr (List.mem_map_of_mem member)

/-! ## The whole selection -/

/-- A use expression selects, in document order and once each, what its steps lead
to. -/
structure SelectsInOrder (document : Document) (expression : UseExpression) (id : NodeId)
    (all selected : List Item) : Prop where
  listed : allItems document = .ok all
  allOnce : all.Nodup
  selects : expression.selection document id = .ok selected
  reached : ∀ item, item ∈ selected ↔ Reaches document expression.steps (.node id) item
  once : selected.Nodup
  inOrder : selected.Sublist all
  /-- Dropping what is met again at the end only selects the same. -/
  late : ∃ paths, ways document expression.steps (.node id) = .ok paths ∧
    selected = paths.eraseDups
  valued : ∃ values, expression.values document id = .ok values ∧
    List.Forall₂ (fun item value => item.text document = .ok value) selected values

/-- A use expression selects, from a node of the tree, exactly the nodes and attributes to
which its steps lead from there, each once and in document order, and the values are their
texts. Dropping after every step what is met again is the same as going all ways first. -/
theorem selectsInOrder (reachable : document.Reachable) (known : document.AllKnown)
    (attached : document.Attached id) (expression : UseExpression) :
    ∃ all selected, SelectsInOrder document expression id all selected := by
  have linked := reachable.linked
  have place : document.Attached (Item.place (.node id)) := attached
  have selects := selection_eq_ends linked known attached expression
  have level := (level_of_attached linked attached).ends linked expression.steps
  rw [List.flatMap_singleton] at level
  refine ⟨_, _, allItems_eq linked, nodup_items linked, selects, ?_, nodup_eraseDups _,
    level.sublist linked, ⟨_, ways_eq_ends linked known place expression.steps, rfl⟩,
    expression.exists_values linked known attached⟩
  intro item
  rw [List.mem_eraseDups]
  exact mem_ends_iff linked place

def siblingAttributes : UseExpression :=
  ⟨[.parent, .child (.ofName .any), .attribute .any, .parent, .attribute .any]⟩

theorem selectsInOrder_siblingAttributes :
    ∃ document all, Document.after [.appendElement 0 "list", .appendElement 1 "item",
        .appendElement 1 "item", .setAttribute 2 "key" none "a",
        .setAttribute 3 "key" none "b", .setAttribute 3 "rank" none "2"] = some document ∧
      SelectsInOrder document siblingAttributes 3 all
        [.attribute 2 0 "a", .attribute 3 0 "b", .attribute 3 1 "2"] := by
  have made : ∃ document,
      Document.after [.appendElement 0 "list", .appendElement 1 "item",
        .appendElement 1 "item", .setAttribute 2 "key" none "a",
        .setAttribute 3 "key" none "b", .setAttribute 3 "rank" none "2"] = some document ∧
      document.AllKnown ∧ document.parentLink 3 = some 1 ∧
      document.parentLink 1 = some 0 ∧
      siblingAttributes.selection document 3 =
        .ok [.attribute 2 0 "a", .attribute 3 0 "b", .attribute 3 1 "2"] :=
    ⟨_, rfl, by decide, rfl, rfl, rfl⟩
  rcases made with ⟨document, made, known, inner, outer, selects⟩
  have attached : document.Attached 3 := .head inner (.single outer)
  rcases selectsInOrder (Document.reachable_of_after made) known attached
    siblingAttributes with
    ⟨all, selected, inOrder⟩
  cases selects.symm.trans inOrder.selects
  exact ⟨document, all, made, inOrder⟩

end ResultTree.Key
