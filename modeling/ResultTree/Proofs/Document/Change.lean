import ResultTree.Proofs.Document.Nodes

namespace ResultTree

/-! Whatever is done to a document comes down to six small changes, and all but one
leave its links as they are. An invariant
of documents is proved once for each of them; that an edit keeps it then needs
nothing but that the edit is made of such changes, however it ends. -/

def Content.IsContainer : Content → Prop
  | .document | .element _ => True
  | _ => False

def Content.IsFresh : Content → Prop
  | .document => False
  | .element held => held = { name := held.name }
  | _ => True

theorem Content.isFresh_element (name : String) : IsFresh (.element { name }) := rfl

namespace Document

structure Joinable (document : Document) (parent child : NodeId) : Prop where
  host : ∃ node, document.nodes[parent]? = some node ∧ node.content.IsContainer
  notRoot : child ≠ root
  inside : child < document.size
  loose : document.parentLink child = none

theorem Joinable.hostInside {document : Document} {parent child : NodeId}
    (joinable : document.Joinable parent child) : parent < document.size := by
  rcases joinable.host with ⟨_, found, _⟩
  exact lt_size_of_node found

structure Declarable (present : List Binding) (binding : Binding) : Prop where
  notReserved : ∀ reserved ∈ Binding.reservedPrefixes, binding.nsPrefix ≠ some reserved
  unused : ∀ declared ∈ present, declared.nsPrefix ≠ binding.nsPrefix

/-- A change that leaves all links as they are. -/
inductive Touch (document : Document) : Document → Prop
  | allocate {content : Content} (fresh : content.IsFresh) :
      Touch document (document.allocate content)
  | line (id : NodeId) (line : Nat) :
      Touch document (document.modify id fun node => { node with line })
  | ownNamespace {id : NodeId} {element : Element}
      (held : document.content id = .ok (.element element)) (ns : Option Handle) :
      Touch document (document.putElement id { element with ns })
  | attributes {id : NodeId} {element : Element} {added : Attribute} {uri : Option String}
      {attributes : List Attribute} (held : document.content id = .ok (.element element))
      (known : document.uri? added.ns = .ok uri)
      (assigned : document.assign added uri element.attributes = .ok attributes) :
      Touch document (document.putElement id { element with attributes })
  | declaration {id : NodeId} {element : Element} {binding : Binding}
      (held : document.content id = .ok (.element element))
      (declarable : Declarable element.declarations binding) :
      Touch document
        (document.putElement id
          { element with declarations := element.declarations ++ [binding] })

inductive Change (document : Document) : Document → Prop
  | touch {changed : Document} (touch : Touch document changed) : Change document changed
  | attach {parent child : NodeId} (joinable : document.Joinable parent child) :
      Change document (document.attach parent child)

abbrev Changes : Document → Document → Prop := Relation.ReflTransGen Change

theorem Touch.parentLink_eq {document changed : Document} (touch : Touch document changed)
    (id : NodeId) : changed.parentLink id = document.parentLink id := by
  cases touch with
  | line target line =>
      simp only [parentLink, nodes_modify]
      split <;> cases document.nodes[id]? <;> rfl
  | _ => simp

end Document

namespace Edit

open Document

variable {α β : Type} {document : Document} {step : Document → Document → Prop}

def Stepwise (step : Document → Document → Prop) (edit : Edit α) : Prop :=
  ∀ document, Relation.ReflTransGen step document (outcome edit document).2

/-! ## Edits made of other edits -/

theorem stepwise_of_unchanged {edit : Edit α}
    (unchanged : ∀ document, (outcome edit document).2 = document) :
    Stepwise step edit := by
  intro document
  rw [unchanged]

theorem Stepwise.pure (answer : α) : Stepwise step (pure answer) :=
  stepwise_of_unchanged fun _ => rfl

theorem Stepwise.get : Stepwise step (get : Edit Document) :=
  stepwise_of_unchanged fun _ => rfl

theorem Stepwise.read (reading : Reading α) : Stepwise step (liftM reading : Edit α) :=
  stepwise_of_unchanged fun document => by rw [outcome_read]

theorem Stepwise.bind {edit : Edit α} {next : α → Edit β} (first : Stepwise step edit)
    (second : ∀ answer, Stepwise step (next answer)) : Stepwise step (edit >>= next) := by
  intro document
  have steps := first document
  rw [outcome_bind]
  rcases result : outcome edit document with
    ⟨_ | _ | answer, changed⟩ <;> rw [result] at steps
  · exact steps
  · exact steps
  · exact steps.trans (second answer changed)

theorem Stepwise.map {edit : Edit α} (change : α → β) (stepwise : Stepwise step edit) :
    Stepwise step (change <$> edit) := by
  intro document
  rw [outcome_map]
  exact stepwise document

theorem Stepwise.attempt {edit : Edit α} (stepwise : Stepwise step edit) :
    Stepwise step (attempt edit) := by
  intro document
  rw [outcome_attempt]
  exact stepwise document

theorem Stepwise.forM {edit : α → Edit Unit}
    (stepwise : ∀ item, Stepwise step (edit item)) :
    ∀ items : List α, Stepwise step (items.forM edit)
  | [] => .pure ()
  | item :: rest => (stepwise item).bind fun _ => Stepwise.forM stepwise rest

theorem Stepwise.mono {wider : Document → Document → Prop} {edit : Edit α}
    (stepwise : Stepwise step edit) (included : ∀ {before after}, step before after →
      wider before after) : Stepwise wider edit :=
  fun document => Relation.ReflTransGen.mono (fun _ _ => included) _ _ (stepwise document)

/-! ## What each operation does -/

theorem outcome_allocate (content : Content) (document : Document) :
    outcome (Edit.allocate content) document =
      (.ok (.ok document.size), document.allocate content) := rfl

def Refused (edit : Edit α) (document : Document) : Prop :=
  ∃ refusal, outcome edit document = (.ok (.error refusal), document)

def Faults (edit : Edit α) (document : Document) : Prop :=
  ∃ fault, outcome edit document = (.error fault, document)

theorem refused_throw (refusal : Refusal) : Refused (throw refusal : Edit α) document :=
  ⟨refusal, rfl⟩

theorem outcome_bind_of {edit : Edit α} {next : α → Edit β} {answer : α}
    {changed : Document} (first : outcome edit document = (.ok (.ok answer), changed)) :
    outcome (edit >>= next) document = outcome (next answer) changed := by
  rw [outcome_bind, first]

theorem Refused.bind {edit : Edit α} (refused : Refused edit document)
    (next : α → Edit β) :
    Refused (edit >>= next) document := by
  rcases refused with ⟨refusal, result⟩
  exact ⟨refusal, by rw [outcome_bind, result]⟩

theorem Faults.bind {edit : Edit α} (faults : Faults edit document) (next : α → Edit β) :
    Faults (edit >>= next) document := by
  rcases faults with ⟨fault, result⟩
  exact ⟨fault, by rw [outcome_bind, result]⟩

theorem outcome_read_of {reading : Reading α} {answer : α}
    (known : reading = .ok answer) :
    outcome (liftM reading : Edit α) document = (.ok (.ok answer), document) := by
  rw [outcome_read, known, Reading.exceptMap_ok]

theorem faults_read {reading : Reading α} {fault : Fault}
    (known : reading = .error fault) :
    Faults (liftM reading : Edit α) document :=
  ⟨fault, by rw [outcome_read, known, Reading.exceptMap_error]⟩

theorem bind_get (next : Document → Edit β) :
    outcome (get >>= next) document = outcome (next document) document :=
  rfl

theorem bind_read_of {reading : Reading α} {answer : α} (known : reading = .ok answer)
    (next : α → Edit β) :
    outcome (liftM reading >>= next) document = outcome (next answer) document :=
  outcome_bind_of (outcome_read_of known)

theorem outcome_appendChild_of {parent child : NodeId}
    (joinable : document.Joinable parent child) :
    outcome (appendChild parent child) document =
      (.ok (.ok ()), document.attach parent child) := by
  rcases joinable.host with ⟨host, hostFound, container⟩
  rcases exists_node_iff.mpr joinable.inside with ⟨node, found⟩
  have loose : node.parent = none := (parentLink_of found).symm.trans joinable.loose
  simp only [appendChild, outcome_bind, outcome_get, outcome_read, content_of hostFound]
  cases shape : host.content <;>
    simp_all [Content.IsContainer, outcome_bind, parent_of found, joinable.notRoot]

theorem appendChild_cases (parent child : NodeId) (document : Document) :
    document.Joinable parent child ∨ Refused (appendChild parent child) document ∨
      Faults (appendChild parent child) document := by
  cases hostFound : document.nodes[parent]? with
  | none => exact .inr (.inr ((faults_read (content_of_none hostFound)).bind _))
  | some host =>
      cases found : document.nodes[child]? with
      | none =>
          right
          simp only [Refused, Faults, appendChild, outcome_bind, outcome_get,
            outcome_read, content_of hostFound]
          by_cases atRoot : child = root <;> cases host.content <;>
            simp [atRoot, outcome_bind, parent_of_none found]
      | some node =>
          by_cases joinable : document.Joinable parent child
          · exact .inl joinable
          · have blocked : host.content.IsContainer → child ≠ root → node.parent ≠ none :=
              fun container notRoot loose => joinable
                ⟨⟨host, hostFound, container⟩, notRoot, lt_size_of_node found,
                  (parentLink_of found).trans loose⟩
            right; left
            simp only [Refused, appendChild, outcome_bind, outcome_get, outcome_read,
              content_of hostFound]
            by_cases atRoot : child = root
            · cases host.content <;> simp [atRoot]
            · cases shape : host.content <;> cases loose : node.parent <;>
                simp_all [Content.IsContainer, outcome_bind, parent_of found]

theorem outcome_elementAt_of {id : NodeId} {element : Element}
    (held : document.content id = .ok (.element element)) :
    outcome (elementAt id) document = (.ok (.ok element), document) := by
  rcases content_eq_ok_iff.mp held with ⟨node, found, shape⟩
  simp [elementAt, outcome_bind, element?_of found, shape, Content.element?]

theorem elementAt_cases (id : NodeId) (document : Document) :
    (∃ element, document.content id = .ok (.element element)) ∨
      Refused (elementAt id) document ∨
      (document.size ≤ id ∧ Faults (elementAt id) document) := by
  cases found : document.nodes[id]? with
  | none =>
      exact .inr (.inr ⟨nodes_eq_none_iff.mp found,
        (faults_read (element?_of_none found)).bind _⟩)
  | some node =>
      rw [content_of found]
      cases shape : node.content <;>
        simp [Refused, elementAt, outcome_bind, element?_of found, shape,
          Content.element?]

theorem outcome_setNamespace_of {id : NodeId} {element : Element}
    (held : document.content id = .ok (.element element)) (ns : Option Handle) :
    outcome (setNamespace id ns) document =
      (.ok (.ok ()), document.putElement id { element with ns }) := by
  rw [setNamespace, outcome_bind_of (outcome_elementAt_of held), outcome_modify]

theorem outcome_setAttribute_of {id : NodeId} {element : Element} {name : String}
    {ns : Option Handle} {value : String} {uri : Option String}
    {attributes : List Attribute} (held : document.content id = .ok (.element element))
    (known : document.uri? ns = .ok uri)
    (assigned :
      document.assign ⟨name, ns, value⟩ uri element.attributes = .ok attributes) :
    outcome (setAttribute id name ns value) document =
      (.ok (.ok ()), document.putElement id { element with attributes }) := by
  rcases content_eq_ok_iff.mp held with ⟨node, found, shape⟩
  have present : document.attributes id = .ok element.attributes := by
    simp [attributes_of found, shape, Content.element?]
  simp [setAttribute, outcome_bind, known, present, assigned, outcome_elementAt_of held]

theorem setAttribute_cases (id : NodeId) (name : String) (ns : Option Handle)
    (value : String) (document : Document) :
    (∃ element uri attributes, document.content id = .ok (.element element) ∧
        document.uri? ns = .ok uri ∧
        document.assign ⟨name, ns, value⟩ uri element.attributes = .ok attributes) ∨
      Refused (setAttribute id name ns value) document ∨
      Faults (setAttribute id name ns value) document := by
  rw [Refused, Faults, Edit.setAttribute, bind_get]
  rcases (document.uri? ns).ok_or_error with ⟨uri, known⟩ | ⟨_, failed⟩
  · rw [bind_read_of known]
    rcases (document.attributes id).ok_or_error with ⟨attributes, present⟩ | ⟨_, failed⟩
    · rw [bind_read_of present]
      rcases (document.assign ⟨name, ns, value⟩ uri attributes).ok_or_error with
        ⟨changed, assigned⟩ | ⟨_, failed⟩
      · rw [bind_read_of assigned]
        rcases elementAt_cases id document with ⟨element, held⟩ | refused | ⟨_, faults⟩
        · rcases content_eq_ok_iff.mp held with ⟨node, found, shape⟩
          have same : element.attributes = attributes := by
            simpa [attributes_of found, shape, Content.element?] using present
          exact .inl ⟨element, uri, changed, held, known, same ▸ assigned⟩
        · exact .inr (.inl (refused.bind _))
        · exact .inr (.inr (faults.bind _))
      · exact .inr (.inr ((faults_read failed).bind _))
    · exact .inr (.inr ((faults_read failed).bind _))
  · exact .inr (.inr ((faults_read failed).bind _))

theorem position?_eq_none_iff {bindings : List Binding} {nsPrefix : Option String} :
    Binding.position? bindings nsPrefix = none ↔
      ∀ declared ∈ bindings, declared.nsPrefix ≠ nsPrefix := by
  simp [Binding.position?, List.findIdx?_eq_none_iff]

theorem filter_reserved_eq_none_iff {nsPrefix : Option String} :
    nsPrefix.filter (· ∈ Binding.reservedPrefixes) = none ↔
      ∀ reserved ∈ Binding.reservedPrefixes, nsPrefix ≠ some reserved := by
  simp only [Option.filter_eq_none_iff, decide_eq_true_eq]
  exact ⟨fun free reserved member same => free reserved same member,
    fun free reserved same member => free reserved member same⟩

theorem outcome_declare_of {id : NodeId} {element : Element} {nsPrefix : Option String}
    {uri : String} (held : document.content id = .ok (.element element))
    (declarable : Declarable element.declarations ⟨nsPrefix, uri⟩) :
    outcome (declare id nsPrefix uri) document =
      (.ok (.ok ⟨id, element.declarations.length⟩),
        document.putElement id
          { element with declarations :=
            element.declarations ++ [⟨nsPrefix, uri⟩] }) := by
  have free := filter_reserved_eq_none_iff.mpr declarable.notReserved
  have unused := position?_eq_none_iff.mpr declarable.unused
  simp only [declare, free, unused, outcome_bind, outcome_elementAt_of held,
    outcome_modify, outcome_pure]

theorem declare_cases (id : NodeId) (nsPrefix : Option String) (uri : String)
    (document : Document) :
    (∃ element, document.content id = .ok (.element element) ∧
        Declarable element.declarations ⟨nsPrefix, uri⟩) ∨
      Refused (declare id nsPrefix uri) document ∨
      (document.size ≤ id ∧ Faults (declare id nsPrefix uri) document) := by
  cases reserved : nsPrefix.filter (· ∈ Binding.reservedPrefixes) with
  | some found =>
      right; left
      simp only [declare, reserved]
      exact refused_throw _
  | none =>
      have free := filter_reserved_eq_none_iff.mp reserved
      simp only [declare, reserved]
      rcases elementAt_cases id document with
        ⟨element, held⟩ | refused | ⟨outside, faults⟩
      · cases position : Binding.position? element.declarations nsPrefix with
        | none => exact .inl ⟨element, held, free, position?_eq_none_iff.mp position⟩
        | some index =>
            right; left
            simp only [Refused, outcome_bind, outcome_elementAt_of held, position]
            exact refused_throw _
      · exact .inr (.inl (refused.bind _))
      · exact .inr (.inr ⟨outside, faults.bind _⟩)

theorem outcome_attempt_declare_of {id : NodeId} {content : Content}
    {nsPrefix : Option String} {uri : String} (held : document.content id = .ok content)
    (undeclarable : ∀ element, content = .element element →
      ¬ Declarable element.declarations ⟨nsPrefix, uri⟩) :
    outcome (attempt (declare id nsPrefix uri)) document =
      (.ok (.ok none), document) := by
  rcases declare_cases id nsPrefix uri document with
    ⟨element, elementHeld, declarable⟩ | ⟨refusal, refused⟩ | ⟨outside, _⟩
  · cases held.symm.trans elementHeld
    exact absurd declarable (undeclarable element rfl)
  · rw [outcome_attempt, refused]
    rfl
  · exact absurd (lt_size_of_content held) (Nat.not_lt_of_le outside)

theorem outcome_attempt_declare {id : NodeId} {element : Element}
    {nsPrefix : Option String} {uri : String}
    (held : document.content id = .ok (.element element))
    (undeclarable : ¬ Declarable element.declarations ⟨nsPrefix, uri⟩) :
    outcome (attempt (declare id nsPrefix uri)) document = (.ok (.ok none), document) :=
  outcome_attempt_declare_of held fun _ same => Content.element.inj same ▸ undeclarable

/-! ## Every operation is made of changes, and all but appending of touches -/

theorem Refused.steps {edit : Edit α} (refused : Refused edit document) :
    Relation.ReflTransGen step document (outcome edit document).2 := by
  rcases refused with ⟨_, result⟩
  rw [result]

theorem Faults.steps {edit : Edit α} (faults : Faults edit document) :
    Relation.ReflTransGen step document (outcome edit document).2 := by
  rcases faults with ⟨_, result⟩
  rw [result]

theorem Stepwise.allocate {content : Content} (fresh : content.IsFresh) :
    Stepwise Touch (Edit.allocate content) :=
  fun _ => .single (.allocate fresh)

theorem Stepwise.newElement (name : String) : Stepwise Touch (newElement name) :=
  .allocate (Content.isFresh_element name)

theorem Stepwise.appendChild (parent child : NodeId) :
    Stepwise Change (appendChild parent child) := by
  intro document
  rcases appendChild_cases parent child document with joinable | refused | faults
  · rw [outcome_appendChild_of joinable]
    exact .single (.attach joinable)
  · exact refused.steps
  · exact faults.steps

theorem Stepwise.appendElement (parent : NodeId) (name : String) :
    Stepwise Change (appendElement parent name) :=
  .bind ((Stepwise.newElement name).mono .touch) fun child =>
    .bind (.appendChild parent child) fun _ => .pure child

theorem Stepwise.setLine (id : NodeId) (line : Nat) :
    Stepwise Touch (setLine id line) := by
  intro document
  cases found : document.nodes[id]? with
  | none => exact Faults.steps ((faults_read (node_of_none found)).bind _)
  | some node =>
      simp only [Edit.setLine, outcome_bind, outcome_get, outcome_read, node_of found]
      exact .single (.line id line)

theorem Stepwise.setNamespace (id : NodeId) (ns : Option Handle) :
    Stepwise Touch (setNamespace id ns) := by
  intro document
  rcases elementAt_cases id document with ⟨element, held⟩ | refused | ⟨_, faults⟩
  · rw [outcome_setNamespace_of held]
    exact .single (.ownNamespace held ns)
  · exact (refused.bind _).steps
  · exact (faults.bind _).steps

theorem Stepwise.setAttribute (id : NodeId) (name : String) (ns : Option Handle)
    (value : String) : Stepwise Touch (setAttribute id name ns value) := by
  intro document
  rcases setAttribute_cases id name ns value document with
    ⟨element, uri, attributes, held, known, assigned⟩ | refused | faults
  · rw [outcome_setAttribute_of held known assigned]
    exact .single (.attributes held known assigned)
  · exact refused.steps
  · exact faults.steps

theorem Stepwise.declare (id : NodeId) (nsPrefix : Option String) (uri : String) :
    Stepwise Touch (declare id nsPrefix uri) := by
  intro document
  rcases declare_cases id nsPrefix uri document with
    ⟨element, held, declarable⟩ | refused | ⟨_, faults⟩
  · rw [outcome_declare_of held declarable]
    exact .single (.declaration held declarable)
  · exact refused.steps
  · exact faults.steps

end Edit

end ResultTree
