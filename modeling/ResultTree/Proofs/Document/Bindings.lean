import ResultTree.Proofs.Document.Links

namespace ResultTree.Document

/-! What elements hold. A handle that denotes a binding denotes it for ever. No
element declares a prefix twice, none declares a reserved one, and no two of its
attributes have the name and the namespace URI in common. -/

variable {document changed : Document}

/-! ## Handles keep their meaning -/

/-- Every handle that denotes a binding in one document denotes it in another. -/
def Extends (changed document : Document) : Prop :=
  ∀ (handle : Handle) (binding : Binding),
    document.binding handle = .ok binding → changed.binding handle = .ok binding

theorem Extends.of_nodes
    (kept : ∀ {id : NodeId} {node : Node}, document.nodes[id]? = some node →
      ∃ after, changed.nodes[id]? = some after ∧
        node.content.declarations <+: after.content.declarations) :
    changed.Extends document := by
  intro handle binding denoted
  rcases binding_eq_ok_iff.mp denoted with ⟨node, found, declared⟩
  rcases kept found with ⟨after, afterFound, rest, appended⟩
  refine binding_eq_ok_iff.mpr ⟨after, afterFound, ?_⟩
  rw [← appended, List.getElem?_append_left, declared]
  exact (List.getElem?_eq_some_iff.mp declared).1

theorem extends_allocate (content : Content) :
    (document.allocate content).Extends document := by
  refine .of_nodes fun {id node} found => ⟨node, ?_, List.prefix_refl _⟩
  rw [nodes_allocate, if_neg (Nat.ne_of_lt (lt_size_of_node found)), found]

theorem extends_attach (parent child : NodeId) :
    (document.attach parent child).Extends document := by
  refine .of_nodes fun {id node} found => ?_
  rw [nodes_attach, found]
  exact ⟨_, rfl, List.prefix_refl _⟩

theorem extends_line (target : NodeId) (line : Nat) :
    (document.modify target fun node => { node with line }).Extends document := by
  refine .of_nodes fun {id node} found => ?_
  rw [nodes_modify, found]
  split <;> exact ⟨_, rfl, List.prefix_refl _⟩

theorem extends_putElement {id : NodeId} {element : Element} {replacement : Element}
    (held : document.content id = .ok (.element element))
    (longer : element.declarations <+: replacement.declarations) :
    (document.putElement id replacement).Extends document := by
  refine .of_nodes fun {other node} found => ?_
  rw [nodes_putElement, found]
  refine ⟨_, rfl, ?_⟩
  by_cases same : other = id
  · rcases content_eq_ok_iff.mp held with ⟨holder, holderFound, shape⟩
    rw [same, holderFound] at found
    cases found
    simpa [same, shape, Content.declarations] using longer
  · simp [same]

theorem Change.extends (change : Change document changed) : changed.Extends document := by
  cases change with
  | attach _ => exact extends_attach _ _
  | touch touch =>
      cases touch with
      | allocate _ => exact extends_allocate _
      | line id line => exact extends_line id line
      | ownNamespace held ns => exact extends_putElement held (List.prefix_refl _)
      | attributes held _ _ => exact extends_putElement held (List.prefix_refl _)
      | declaration held _ => exact extends_putElement held (List.prefix_append _ _)

theorem Changes.extends (changes : Changes document changed) : changed.Extends document :=
  @Changes.holds _ _ changes (·.Extends document) (fun _ _ denoted => denoted)
    fun change extended handle binding denoted =>
      change.extends handle binding (extended handle binding denoted)

theorem Extends.uri? (extended : changed.Extends document) {ns : Option Handle}
    {uri : Option String} (known : document.uri? ns = .ok uri) :
    changed.uri? ns = .ok uri := by
  cases ns with
  | none => exact known
  | some handle =>
      rcases Reading.bind_eq_ok_iff.mp known with ⟨binding, denoted, same⟩
      simp only [Document.uri?, extended handle binding denoted]
      exact same

theorem uri?_some_of {handle : Handle} {binding : Binding}
    (denoted : document.binding handle = .ok binding) :
    document.uri? (some handle) = .ok (some binding.uri) := by
  simp [Document.uri?, denoted]

/-! ## What an element holds is in order -/

def Alike (document : Document) (left right : Attribute) : Prop :=
  left.name = right.name ∧ document.uri? left.ns = document.uri? right.ns

structure Tidy (bindings : List Binding) : Prop where
  prefixes : (bindings.map Binding.nsPrefix).Nodup
  unreserved : ∀ declared ∈ bindings, ∀ reserved ∈ Binding.reservedPrefixes,
    declared.nsPrefix ≠ some reserved

theorem Tidy.nil : Tidy [] := ⟨by simp, by simp⟩

theorem Tidy.declare {bindings : List Binding} {binding : Binding} (tidy : Tidy bindings)
    (declarable : Declarable bindings binding) : Tidy (bindings ++ [binding]) where
  prefixes := by
    rw [List.map_append]
    refine List.nodup_append.mpr ⟨tidy.prefixes, by simp, ?_⟩
    intro left leftMember right rightMember
    rcases List.mem_map.mp leftMember with ⟨declared, member, same⟩
    simp only [List.map_cons, List.map_nil, List.mem_singleton] at rightMember
    rw [← same, rightMember]
    exact declarable.unused declared member
  unreserved := by
    intro declared member
    rcases List.mem_append.mp member with member | member
    · exact tidy.unreserved declared member
    · rw [List.mem_singleton.mp member]
      exact declarable.notReserved

structure Orderly (document : Document) (element : Element) : Prop where
  tidy : Tidy element.declarations
  known : ∀ named ∈ element.attributes, ∃ uri, document.uri? named.ns = .ok uri
  different : element.attributes.Pairwise fun left right => ¬ document.Alike left right

def AllOrderly (document : Document) : Prop :=
  ∀ (id : NodeId) (element : Element), document.content id = .ok (.element element) →
    document.Orderly element

namespace Orderly

variable {element : Element}

theorem of_extends (orderly : document.Orderly element)
    (extended : changed.Extends document) :
    changed.Orderly element where
  tidy := orderly.tidy
  known := by
    intro named member
    rcases orderly.known named member with ⟨uri, known⟩
    exact ⟨uri, extended.uri? known⟩
  different := by
    apply orderly.different.imp_of_mem
    intro left right leftMember rightMember different alike
    rcases orderly.known left leftMember with ⟨leftUri, leftKnown⟩
    rcases orderly.known right rightMember with ⟨rightUri, rightKnown⟩
    refine different ⟨alike.1, ?_⟩
    have same := alike.2
    rw [extended.uri? leftKnown, extended.uri? rightKnown] at same
    rw [leftKnown, rightKnown, same]

theorem fresh (name : String) : document.Orderly { name } where
  tidy := .nil
  known := by simp
  different := by simp

theorem declare (orderly : document.Orderly element) {binding : Binding}
    (declarable : Declarable element.declarations binding) :
    document.Orderly { element with declarations :=
      element.declarations ++ [binding] } where
  tidy := orderly.tidy.declare declarable
  known := orderly.known
  different := orderly.different

/-! ### Attributes -/

theorem mem_of_assign {added : Attribute} {uri : Option String}
    {attributes assigned : List Attribute}
    (answered : document.assign added uri attributes = .ok assigned) :
    ∀ named ∈ assigned, named = added ∨ named ∈ attributes := by
  induction attributes generalizing assigned with
  | nil =>
      cases answered
      simp
  | cons present rest induction =>
      have kept {others : List Attribute}
          (answered : document.assign added uri rest = .ok others) :
          ∀ named ∈ present :: others, named = added ∨ named ∈ present :: rest := by
        intro named member
        rcases List.mem_cons.mp member with same | member
        · simp [same]
        · rcases induction answered named member with same | member
          · exact .inl same
          · exact .inr (List.mem_cons_of_mem _ member)
      unfold assign at answered
      split at answered
      · rcases Reading.bind_eq_ok_iff.mp answered with ⟨own, _, answered⟩
        split at answered
        · cases answered
          intro named member
          rcases List.mem_cons.mp member with same | member
          · exact .inl same
          · exact .inr (List.mem_cons_of_mem _ member)
        · rcases Reading.bind_eq_ok_iff.mp answered with ⟨others, below, same⟩
          cases same
          exact kept below
      · rcases Reading.bind_eq_ok_iff.mp answered with ⟨others, below, same⟩
        cases same
        exact kept below

theorem different_of_assign {added : Attribute} {uri : Option String}
    {attributes assigned : List Attribute} (known : document.uri? added.ns = .ok uri)
    (answered : document.assign added uri attributes = .ok assigned)
    (different : attributes.Pairwise fun left right => ¬ document.Alike left right) :
    assigned.Pairwise fun left right => ¬ document.Alike left right := by
  induction attributes generalizing assigned with
  | nil =>
      cases answered
      simp
  | cons present rest induction =>
      rcases List.pairwise_cons.mp different with ⟨fromPresent, different⟩
      have kept {others : List Attribute}
          (answered : document.assign added uri rest = .ok others)
          (unlike : ¬ document.Alike present added) :
          (present :: others).Pairwise fun left right => ¬ document.Alike left right := by
        refine List.pairwise_cons.mpr
          ⟨fun named member => ?_, induction answered different⟩
        rcases mem_of_assign answered named member with same | member
        · exact same ▸ unlike
        · exact fromPresent named member
      unfold assign at answered
      split at answered
      · next sameName =>
          rcases Reading.bind_eq_ok_iff.mp answered with ⟨own, ownKnown, answered⟩
          split at answered
          · next sameUri =>
              cases answered
              refine List.pairwise_cons.mpr ⟨fun named member alike => ?_, different⟩
              refine fromPresent named member ⟨sameName.trans alike.1, ?_⟩
              rw [ownKnown, sameUri, ← known, alike.2]
          · next otherUri =>
              rcases Reading.bind_eq_ok_iff.mp answered with ⟨others, below, same⟩
              cases same
              refine kept below fun alike => otherUri ?_
              have same := alike.2
              rw [ownKnown, known] at same
              exact Except.ok.inj same
      · next otherName =>
          rcases Reading.bind_eq_ok_iff.mp answered with ⟨others, below, same⟩
          cases same
          exact kept below fun alike => otherName alike.1

theorem assign (orderly : document.Orderly element) {added : Attribute}
    {uri : Option String} {attributes : List Attribute}
    (known : document.uri? added.ns = .ok uri)
    (assigned : document.assign added uri element.attributes = .ok attributes) :
    document.Orderly { element with attributes } where
  tidy := orderly.tidy
  known := by
    intro named member
    rcases mem_of_assign assigned named member with same | member
    · exact ⟨uri, same ▸ known⟩
    · exact orderly.known named member
  different := different_of_assign known assigned orderly.different

end Orderly

namespace AllOrderly

theorem empty : AllOrderly .empty := by
  intro id element held
  rcases content_eq_ok_iff.mp held with ⟨node, found, shape⟩
  by_cases atRoot : id = root <;> simp [Linked.nodes_empty, atRoot] at found
  simp [← found] at shape

theorem allocate (orderly : document.AllOrderly) {content : Content}
    (fresh : content.IsFresh) :
    (document.allocate content).AllOrderly := by
  intro id element held
  rcases content_eq_ok_iff.mp held with ⟨node, found, shape⟩
  rw [nodes_allocate] at found
  split at found
  · cases found
    have shape : content = .element element := shape
    rw [shape] at fresh
    have fresh : element = { name := element.name } := fresh
    exact fresh ▸ Orderly.fresh _
  · have before := orderly id element (content_eq_ok_iff.mpr ⟨node, found, shape⟩)
    exact before.of_extends (extends_allocate _)

theorem of_contents (orderly : document.AllOrderly) (extended : changed.Extends document)
    (contents : ∀ {id : NodeId} {content : Content}, changed.content id = .ok content →
      document.content id = .ok content) : changed.AllOrderly :=
  fun id element held => (orderly id element (contents held)).of_extends extended

theorem attach (orderly : document.AllOrderly) (parent child : NodeId) :
    (document.attach parent child).AllOrderly := by
  refine orderly.of_contents (extends_attach _ _) fun {id content} held => ?_
  rcases content_eq_ok_iff.mp held with ⟨node, found, shape⟩
  rw [nodes_attach] at found
  rcases Option.map_eq_some_iff.mp found with ⟨before, beforeFound, same⟩
  subst same
  exact content_eq_ok_iff.mpr ⟨before, beforeFound, shape⟩

theorem line (orderly : document.AllOrderly) (target : NodeId) (line : Nat) :
    (document.modify target fun node => { node with line }).AllOrderly := by
  refine orderly.of_contents (extends_line _ _) fun {id content} held => ?_
  rcases content_eq_ok_iff.mp held with ⟨node, found, shape⟩
  rw [nodes_modify] at found
  split at found
  · rcases Option.map_eq_some_iff.mp found with ⟨before, beforeFound, same⟩
    subst same
    exact content_eq_ok_iff.mpr ⟨before, beforeFound, shape⟩
  · exact content_eq_ok_iff.mpr ⟨node, found, shape⟩

theorem putElement (orderly : document.AllOrderly) {target : NodeId}
    {element replacement : Element}
    (held : document.content target = .ok (.element element))
    (longer : element.declarations <+: replacement.declarations)
    (inOrder : document.Orderly replacement) :
    (document.putElement target replacement).AllOrderly := by
  intro id other otherHeld
  refine Orderly.of_extends ?_ (extends_putElement held longer)
  rcases content_eq_ok_iff.mp otherHeld with ⟨node, found, shape⟩
  rw [nodes_putElement] at found
  rcases Option.map_eq_some_iff.mp found with ⟨before, beforeFound, same⟩
  subst same
  by_cases atTarget : id = target
  · have same : replacement = other := by simpa [atTarget] using shape
    exact same ▸ inOrder
  · exact orderly id other
      (content_eq_ok_iff.mpr ⟨before, beforeFound, by simpa [atTarget] using shape⟩)

theorem kept (change : Change document changed) (orderly : document.AllOrderly) :
    changed.AllOrderly := by
  cases change with
  | attach _ => exact orderly.attach _ _
  | touch touch =>
      cases touch with
      | allocate fresh => exact orderly.allocate fresh
      | line id line => exact orderly.line id line
      | @ownNamespace id element held ns =>
          have same := orderly id element held
          apply @AllOrderly.putElement _ orderly _ _ { element with ns } held
            (List.prefix_refl _)
          exact ⟨same.tidy, same.known, same.different⟩
      | attributes held known assigned =>
          exact orderly.putElement held (List.prefix_refl _)
            ((orderly _ _ held).assign known assigned)
      | declaration held declarable =>
          exact orderly.putElement held (List.prefix_append _ _)
            ((orderly _ _ held).declare declarable)

end AllOrderly

theorem Reachable.orderly (reachable : document.Reachable) : document.AllOrderly :=
  reachable.holds AllOrderly.empty AllOrderly.kept

end ResultTree.Document
