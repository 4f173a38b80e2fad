import Mathlib.Data.List.Flatten
import Mathlib.Data.List.Nodup
import ResultTree.Proofs.Document.Interlinking
import ResultTree.Proofs.Document.Loops
import ResultTree.Proofs.Key.Evaluation
import ResultTree.Proofs.Lists

namespace ResultTree.Key

/-! Where the steps of a use expression lead. Told as a relation, a step leads from a
node or an attribute to others, and never out of the tree, so that every step has an
answer. To drop what is met again after every step changes nothing about what is selected
at the end: the steps select what all paths end at. -/

/-! ## Dropping what is met again -/

section

variable {α β : Type} [DecidableEq α]

theorem removeAll_flatMap_filter [DecidableEq β] (next : α → List β) (first : α)
    (items : List α) :
    ((items.filter fun other => !(other == first)).flatMap next).removeAll (next first) =
      (items.flatMap next).removeAll (next first) := by
  induction items with
  | nil => rfl
  | cons item rest induction =>
      have nothing : (next first).removeAll (next first) = [] := by simp [List.removeAll]
      have splits (left right : List β) : (left ++ right).removeAll (next first) =
          left.removeAll (next first) ++ right.removeAll (next first) :=
        List.filter_append left right
      by_cases same : item = first
      · subst same
        simp [splits, nothing, induction]
      · simp [splits, same, induction]

/-- Dropping before a step as well as after it is the same as dropping after it only. -/
theorem eraseDups_flatMap [DecidableEq β] (next : α → List β) (items : List α) :
    (items.eraseDups.flatMap next).eraseDups = (items.flatMap next).eraseDups := by
  induction items with
  | nil => rfl
  | cons first rest induction =>
      rw [List.eraseDups_cons, eraseDups_filter, List.flatMap_cons, List.flatMap_cons,
        List.eraseDups_append, List.eraseDups_append, removeAll_flatMap_filter]
      simp only [List.removeAll, eraseDups_filter, induction]

end

/-! ## Where a step leads -/

variable {document : Document} {id : NodeId} {item : Item} {items : List Item}

def Item.place : Item → NodeId
  | .node id => id
  | .attribute owner _ _ => owner

def AllAttached (document : Document) (items : List Item) : Prop :=
  ∀ item ∈ items, document.Attached item.place

inductive Step.Leads (document : Document) : Step → Item → Item → Prop
  | self {item : Item} : Leads document .self item item
  | parent {id parent : NodeId} (link : document.parent id = .ok (some parent)) :
      Leads document .parent (.node id) (.node parent)
  | owner {owner : NodeId} {index : Nat} {value : String} :
      Leads document .parent (.attribute owner index value) (.node owner)
  | child {test : NodeTest} {id child : NodeId} {children : List NodeId}
      (listed : document.children id = .ok children) (member : child ∈ children)
      (accepted : test.accepts document child = .ok true) :
      Leads document (.child test) (.node id) (.node child)
  | attribute {test : NameTest} {owner : NodeId} {attributes : List Attribute}
      {held : Attribute} {index : Nat} {uri : Option String}
      (answered : document.attributes owner = .ok attributes)
      (found : attributes[index]? = some held) (denoted : document.uri? held.ns = .ok uri)
      (accepted : test.accepts held.name uri = true) :
      Leads document (.attribute test) (.node owner) (.attribute owner index held.value)

inductive Reaches (document : Document) : List Step → Item → Item → Prop
  | done {item : Item} : Reaches document [] item item
  | next {step : Step} {steps : List Step} {item between reached : Item}
      (leads : step.Leads document item between)
      (reaches : Reaches document steps between reached) :
      Reaches document (step :: steps) item reached

/-- The ends of all paths that steps can take, one for each path. -/
def ways (document : Document) : List Step → Item → Reading (List Item)
  | [], item => return [item]
  | step :: steps, item => do
      return (← (← step.select document item).mapM (ways document steps)).flatten

def Item.ofHeld (owner : NodeId) (place : Attribute × Nat) : Item :=
  .attribute owner place.2 place.1.value

/-! ## The same as lists -/

def heldAttributes (document : Document) (id : NodeId) : List Attribute :=
  document.nodes[id]?.elim [] fun node => node.content.element?.elim [] Element.attributes

theorem attributes_eq_heldAttributes (inside : id < document.size) :
    document.attributes id = .ok (heldAttributes document id) := by
  rcases Document.exists_node_iff.mpr inside with ⟨node, found⟩
  rw [Document.attributes_of found, heldAttributes, found]
  rfl

def NameTest.passes (test : NameTest) (document : Document) (place : Attribute × Nat) :
    Bool :=
  test.accepts place.1.name <$> document.uri? place.1.ns = .ok true

def Step.choices (document : Document) : Step → Item → List Item
  | .self, item => [item]
  | .parent, .node id => (document.parentLink id).toList.map .node
  | .parent, .attribute owner _ _ => [.node owner]
  | .child test, .node id =>
      ((document.childLinks id).filter fun child =>
        test.accepts document child = .ok true).map .node
  | .attribute test, .node id =>
      ((heldAttributes document id).zipIdx.filter (test.passes document)).map
        (Item.ofHeld id)
  | .child _, .attribute _ _ _ => []
  | .attribute _, .attribute _ _ _ => []

theorem exists_attributeUri (known : document.AllKnown) {attributes : List Attribute}
    (answered : document.attributes id = .ok attributes) {held : Attribute}
    (member : held ∈ attributes) : ∃ uri, document.uri? held.ns = .ok uri := by
  rcases Reading.map_eq_ok_iff.mp answered with ⟨element, found, rfl⟩
  cases element with
  | none => cases member
  | some element =>
      apply Document.exists_uri?
      intro handle named
      exact known id element (Document.content_of_element? found) handle
        (Element.mem_handles_of_attribute member named)

theorem attributesOf_eq_passing (known : document.AllKnown) (inside : id < document.size)
    (test : NameTest) :
    attributesOf document test id =
      .ok (((heldAttributes document id).zipIdx.filter (test.passes document)).map
        (Item.ofHeld id)) := by
  have answered := attributes_eq_heldAttributes inside
  rw [attributesOf, answered, Reading.ok_bind]
  apply Reading.filterMapM_eq
  rintro ⟨held, index⟩ member
  rcases exists_attributeUri known answered (List.fst_mem_of_mem_zipIdx member) with
    ⟨uri, denoted⟩
  simp [NameTest.passes, denoted, Item.ofHeld]

theorem Step.select_eq_choices (linked : document.Linked) (known : document.AllKnown)
    (inside : item.place < document.size) (step : Step) :
    step.select document item = .ok (step.choices document item) := by
  cases step with
  | self => rfl
  | parent =>
      cases item with
      | node id =>
          have link : document.parent id = .ok (document.parentLink id) :=
            Document.parent_eq_parentLink inside
          rw [select, link]
          rfl
      | «attribute» => rfl
  | child test =>
      cases item with
      | node id =>
          have listed : document.children id = .ok (document.childLinks id) :=
            Document.children_eq_childLinks inside
          rw [select, listed, Reading.ok_bind, Reading.filterM_eq]
          · rfl
          · exact fun child member =>
              test.exists_accepts known (linked.childInside member)
      | «attribute» => rfl
  | «attribute» test =>
      cases item with
      | node id => exact attributesOf_eq_passing known inside test
      | «attribute» => rfl

theorem Step.leads_of_mem_choices (inside : item.place < document.size) {step : Step}
    {other : Item} (member : other ∈ step.choices document item) :
    step.Leads document item other := by
  cases step with
  | self =>
      cases List.mem_singleton.mp member
      exact .self
  | parent =>
      cases item with
      | node id =>
          rcases List.mem_map.mp member with ⟨parent, link, rfl⟩
          exact .parent (Document.parent_eq_ok_some_iff.mpr (Option.mem_toList.mp link))
      | «attribute» =>
          cases List.mem_singleton.mp member
          exact .owner
  | child test =>
      cases item with
      | node id =>
          rcases List.mem_map.mp member with ⟨child, passing, rfl⟩
          rcases List.mem_filter.mp passing with ⟨listed, accepted⟩
          exact .child (Document.children_eq_childLinks inside) listed
            (of_decide_eq_true accepted)
      | «attribute» => cases member
  | «attribute» test =>
      cases item with
      | node id =>
          rcases List.mem_map.mp member with ⟨⟨held, index⟩, passing, rfl⟩
          rcases List.mem_filter.mp passing with ⟨placed, passes⟩
          rcases Reading.map_eq_ok_iff.mp (of_decide_eq_true passes) with
            ⟨uri, denoted, accepted⟩
          exact .attribute (attributes_eq_heldAttributes inside)
            (List.mem_zipIdx_iff_getElem?.mp placed) denoted accepted
      | «attribute» => cases member

theorem Step.Leads.mem_choices (inside : item.place < document.size) {step : Step}
    {other : Item} (leads : step.Leads document item other) :
    other ∈ step.choices document item := by
  cases leads with
  | self => exact List.mem_singleton_self _
  | parent link =>
      apply List.mem_map_of_mem
      exact Option.mem_toList.mpr (Document.parent_eq_ok_some_iff.mp link)
  | owner => exact List.mem_singleton_self _
  | child listed member accepted =>
      apply List.mem_map_of_mem
      apply List.mem_filter.mpr
      exact ⟨(Document.children_eq_ok_iff.mp listed).2 ▸ member, decide_eq_true accepted⟩
  | @«attribute» _ owner _ held index _ answered found denoted accepted =>
      cases answered.symm.trans (attributes_eq_heldAttributes inside)
      apply List.mem_map.mpr
      refine ⟨(held, index), List.mem_filter.mpr ⟨?_, ?_⟩, rfl⟩
      · exact List.mem_zipIdx_iff_getElem?.mpr found
      · simp [NameTest.passes, denoted, accepted]

theorem Step.Leads.attached (linked : document.Linked) {step : Step} {other : Item}
    (leads : step.Leads document item other) (attached : document.Attached item.place) :
    document.Attached other.place := by
  cases leads with
  | self => exact attached
  | parent link => exact attached.parent linked (Document.parent_eq_ok_some_iff.mp link)
  | owner => exact attached
  | child listed member _ =>
      exact attached.child linked ((Document.children_eq_ok_iff.mp listed).2 ▸ member)
  | «attribute» => exact attached

theorem Step.attached_of_mem_choices (linked : document.Linked) {step : Step}
    {other : Item} (choice : other ∈ step.choices document item)
    (attached : document.Attached item.place) :
    document.Attached other.place :=
  (Step.leads_of_mem_choices (attached.inside linked) choice).attached linked attached

theorem Reaches.attached (linked : document.Linked) {steps : List Step} {reached : Item}
    (reaches : Reaches document steps item reached)
    (attached : document.Attached item.place) :
    document.Attached reached.place := by
  induction reaches with
  | done => exact attached
  | next leads _ induction => exact induction (leads.attached linked attached)

def ends (document : Document) : List Step → Item → List Item
  | [], item => [item]
  | step :: steps, item => (step.choices document item).flatMap (ends document steps)

theorem AllAttached.choices (linked : document.Linked)
    (attached : AllAttached document items) (step : Step) :
    AllAttached document (items.flatMap (step.choices document)) := by
  intro other member
  rcases List.mem_flatMap.mp member with ⟨item, itemMember, choice⟩
  exact Step.attached_of_mem_choices linked choice (attached item itemMember)

theorem ways_eq_ends (linked : document.Linked) (known : document.AllKnown)
    (attached : document.Attached item.place) (steps : List Step) :
    ways document steps item = .ok (ends document steps item) := by
  induction steps generalizing item with
  | nil => rfl
  | cons step steps induction =>
      have inside := attached.inside linked
      have onward : ∀ between ∈ step.choices document item,
          ways document steps between = .ok (ends document steps between) :=
        fun between choice =>
          induction (Step.attached_of_mem_choices linked choice attached)
      rw [ways, step.select_eq_choices linked known inside, Reading.ok_bind,
        Reading.mapM_eq onward, Reading.ok_bind, ends, List.flatMap_def]
      rfl

theorem mem_ends_iff (linked : document.Linked) (attached : document.Attached item.place)
    {steps : List Step} {reached : Item} :
    reached ∈ ends document steps item ↔ Reaches document steps item reached := by
  induction steps generalizing item with
  | nil =>
      constructor
      · intro member
        cases List.mem_singleton.mp member
        exact .done
      · intro reaches
        cases reaches
        exact List.mem_singleton_self _
  | cons step steps induction =>
      have inside := attached.inside linked
      constructor
      · intro member
        rcases List.mem_flatMap.mp member with ⟨between, choice, member⟩
        have leads := Step.leads_of_mem_choices inside choice
        exact .next leads ((induction (leads.attached linked attached)).mp member)
      · intro reaches
        cases reaches with
        | next leads reaches =>
            apply List.mem_flatMap.mpr
            exact ⟨_, leads.mem_choices inside,
              (induction (leads.attached linked attached)).mpr reaches⟩

theorem Step.advance_eq_choices (linked : document.Linked) (known : document.AllKnown)
    (attached : AllAttached document items) (step : Step) :
    step.advance document items =
      .ok (items.flatMap (step.choices document)).eraseDups := by
  have each : ∀ item ∈ items,
      step.select document item = .ok (step.choices document item) :=
    fun item member =>
      step.select_eq_choices linked known ((attached item member).inside linked)
  rw [advance, Reading.mapM_eq each, Reading.ok_bind, List.flatMap_def]
  rfl

theorem eraseDups_ends_cons (step : Step) (steps : List Step) (items : List Item) :
    ((items.flatMap (step.choices document)).eraseDups.flatMap
        (ends document steps)).eraseDups =
      (items.flatMap (ends document (step :: steps))).eraseDups := by
  rw [eraseDups_flatMap, List.flatMap_assoc]
  rfl

/-- Steps taken one after the other select what all paths end at. -/
theorem foldlM_advance_eq_ends (linked : document.Linked) (known : document.AllKnown)
    (attached : AllAttached document items) (nodup : items.Nodup) (steps : List Step) :
    steps.foldlM (Step.advance document) items =
      .ok (items.flatMap (ends document steps)).eraseDups := by
  induction steps generalizing items with
  | nil =>
      have same : items.flatMap (ends document []) = items :=
        List.flatMap_singleton' items
      rw [same, eraseDups_of_nodup nodup]
      rfl
  | cons step steps induction =>
      have selectedAttached :
          AllAttached document (items.flatMap (step.choices document)).eraseDups :=
        fun item member =>
          attached.choices linked step item (List.mem_eraseDups.mp member)
      rw [List.foldlM_cons, step.advance_eq_choices linked known attached,
        Reading.ok_bind,
        induction selectedAttached (nodup_eraseDups _), eraseDups_ends_cons]

/-! ## What a use expression selects -/

theorem selection_eq_ends (linked : document.Linked) (known : document.AllKnown)
    (attached : document.Attached id) (expression : UseExpression) :
    expression.selection document id =
      .ok (ends document expression.steps (.node id)).eraseDups := by
  have start : AllAttached document [.node id] := by
    intro item member
    rwa [List.mem_singleton.mp member]
  have selects := foldlM_advance_eq_ends linked known start (List.nodup_singleton _)
    expression.steps
  rwa [List.flatMap_singleton] at selects

theorem Item.exists_text (linked : document.Linked) {item : Item}
    (attached : document.Attached item.place) :
    ∃ text, item.text document = .ok text := by
  cases item with
  | node id =>
      rcases attached.way linked with ⟨_, way⟩
      exact way.stringValue linked (attached.inside linked)
  | _ => exact ⟨_, rfl⟩

theorem UseExpression.exists_values (linked : document.Linked) (known : document.AllKnown)
    (attached : document.Attached id) (expression : UseExpression) :
    ∃ values, expression.values document id = .ok values ∧
      List.Forall₂ (fun item value => item.text document = .ok value)
        (ends document expression.steps (.node id)).eraseDups values := by
  have place : document.Attached (Item.place (.node id)) := attached
  have texts : ∀ item ∈ (ends document expression.steps (.node id)).eraseDups,
      ∃ text, item.text document = .ok text := by
    intro item member
    apply Item.exists_text linked
    have reaches := (mem_ends_iff linked place).mp (List.mem_eraseDups.mp member)
    exact reaches.attached linked place
  rcases Reading.exists_mapM texts with ⟨answers, read⟩
  refine ⟨answers, ?_, Reading.forall₂_of_mapM read⟩
  rw [values, selection_eq_ends linked known attached, Reading.ok_bind, read]

theorem Definition.exists_values (linked : document.Linked) (known : document.AllKnown)
    (attached : document.Attached id) (definition : Definition) :
    ∃ values, definition.values document id = .ok values := by
  rcases definition.use.exists_values linked known attached with ⟨values, answered, _⟩
  exact ⟨values, answered⟩

end ResultTree.Key
