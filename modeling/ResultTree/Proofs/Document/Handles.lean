import ResultTree.Proofs.Document.Descent
import ResultTree.Proofs.Document.Scope

namespace ResultTree

/-! Documents that use handles well. The least is that every handle denotes a binding.
Beyond that, a handle should be what its own prefix denotes where it is used, so that
a name written with that prefix means what the handle says. -/

def Element.handles (element : Element) : List Handle :=
  element.ns.toList ++ element.attributes.filterMap Attribute.ns

theorem Element.own_mem_handles {element : Element} {handle : Handle}
    (own : element.ns = some handle) : handle ∈ element.handles := by
  simp [handles, own]

theorem Element.mem_handles_of_attribute {element : Element} {held : Attribute}
    {handle : Handle} (member : held ∈ element.attributes)
    (named : held.ns = some handle) :
    handle ∈ element.handles :=
  List.mem_append_right _ (List.mem_filterMap.mpr ⟨held, member, named⟩)

def Document.Known (document : Document) (element : Element) : Prop :=
  ∀ handle ∈ element.handles, ∃ binding, document.binding handle = .ok binding

def Document.AllKnown (document : Document) : Prop :=
  ∀ (id : NodeId) (element : Element), document.content id = .ok (.element element) →
    document.Known element

namespace Document

variable {document : Document} {id : NodeId}

theorem exists_uri? {ns : Option Handle}
    (known : ∀ handle, ns = some handle →
      ∃ binding, document.binding handle = .ok binding) :
    ∃ uri, document.uri? ns = .ok uri := by
  cases ns with
  | none => exact ⟨none, rfl⟩
  | some handle =>
      rcases known handle rfl with ⟨binding, denoted⟩
      exact ⟨_, uri?_some_of denoted⟩

theorem content_of_element? {element : Element}
    (held : document.element? id = .ok (some element)) :
    document.content id = .ok (.element element) := by
  rcases Reading.map_eq_ok_iff.mp held with ⟨content, known, shape⟩
  cases content <;> simp [Content.element?] at shape
  rw [known, shape]

theorem exists_element? (inside : id < document.size) :
    ∃ element, document.element? id = .ok element := by
  rcases exists_node_iff.mpr inside with ⟨node, found⟩
  exact ⟨_, element?_of found⟩

theorem content_eq_element_iff {element : Element} :
    document.content id = .ok (.element element) ↔
      ∃ node, document.nodes[id]? = some node ∧ node.content.element? = some element := by
  rw [content_eq_ok_iff]
  refine exists_congr fun node => and_congr_right fun _ => ?_
  cases node.content <;> simp [Content.element?]

theorem namespaceUri?_of_element {element : Element}
    (held : document.content id = .ok (.element element)) :
    document.namespaceUri? id = document.uri? element.ns := by
  rw [namespaceUri?, ownNamespace?, element?, held]
  rfl

theorem declarations_of_element {element : Element}
    (held : document.content id = .ok (.element element)) :
    document.declarations id = .ok element.declarations := by
  rw [declarations, held]
  rfl

theorem attributes_of_element {element : Element}
    (held : document.content id = .ok (.element element)) :
    document.attributes id = .ok element.attributes := by
  rw [attributes, element?, held]
  rfl

instance (handle : Handle) :
    Decidable (∃ binding, document.binding handle = .ok binding) :=
  match known : document.binding handle with
  | .ok binding => .isTrue ⟨binding, rfl⟩
  | .error _ => .isFalse (by simp)

theorem forall_element_iff {property : Element → Prop} :
    (∀ (id : NodeId) (element : Element), document.content id = .ok (.element element) →
        property element) ↔
      ∀ node ∈ document.nodes, ∀ element ∈ node.content.element?, property element := by
  constructor
  · intro all node member element shape
    rcases Array.mem_iff_getElem?.mp member with ⟨id, found⟩
    exact all id element (content_eq_element_iff.mpr ⟨node, found, shape⟩)
  · intro all id element held
    rcases content_eq_element_iff.mp held with ⟨node, found, shape⟩
    exact all node (Array.mem_of_getElem? found) element shape

theorem allKnown_iff : document.AllKnown ↔
    ∀ node ∈ document.nodes, ∀ element ∈ node.content.element?, document.Known element :=
  forall_element_iff

instance (element : Element) : Decidable (document.Known element) :=
  inferInstanceAs (Decidable (∀ handle ∈ element.handles,
    ∃ binding, document.binding handle = .ok binding))

instance : Decidable document.AllKnown := decidable_of_iff _ allKnown_iff.symm

theorem AllKnown.exists_namespaceUri? (known : document.AllKnown)
    (inside : id < document.size) :
    ∃ uri, document.namespaceUri? id = .ok uri := by
  rcases exists_element? inside with ⟨element, held⟩
  simp only [namespaceUri?, ownNamespace?, held, Reading.map_ok, Reading.ok_bind]
  apply exists_uri?
  intro handle own
  rcases Option.bind_eq_some_iff.mp own with ⟨element, rfl, own⟩
  exact known id element (content_of_element? held) handle (Element.own_mem_handles own)

/-! ## Names that mean what they say -/

/-- A handle is what its own prefix denotes at a node, and its URI is not empty. -/
def Names (document : Document) (id : NodeId) (handle : Handle) : Prop :=
  ∃ binding, document.binding handle = .ok binding ∧ binding.uri ≠ "" ∧
    document.findPrefix id binding.nsPrefix = .ok (some handle)

/-- There is no default namespace at a node, or only an empty one. -/
def Bare (document : Document) (id : NodeId) : Prop :=
  document.findPrefix id none = .ok none ∨
    ∃ handle binding, document.findPrefix id none = .ok (some handle) ∧
      document.binding handle = .ok binding ∧ binding.uri = ""

structure NamedAt (document : Document) (id : NodeId) (element : Element) : Prop where
  own : ∀ handle ∈ element.ns, document.Names id handle
  attributes : ∀ held ∈ element.attributes, ∀ handle ∈ held.ns, document.Names id handle ∧
    ∃ binding, document.binding handle = .ok binding ∧ binding.nsPrefix ≠ none

/-- The names of an element mean at a node what its handles say. The namespaces of
attributes have prefixes. -/
structure ConsistentAt (document : Document) (id : NodeId) (element : Element) :
    Prop where
  own : ∀ handle ∈ element.ns, document.Names id handle
  bare : element.ns = none → document.Bare id
  attributes : ∀ held ∈ element.attributes, ∀ handle ∈ held.ns, document.Names id handle ∧
    ∃ binding, document.binding handle = .ok binding ∧ binding.nsPrefix ≠ none

def Attached (document : Document) (id : NodeId) : Prop := document.Passes id root

/-- All names in the tree below the document node mean what they say. -/
def Consistent (document : Document) : Prop :=
  ∀ (id : NodeId) (element : Element), document.Attached id →
    document.content id = .ok (.element element) → document.ConsistentAt id element

/-- The handles in the tree below the document node are what their prefixes denote. A
name without a namespace may still be in the default one. -/
def WellNamed (document : Document) : Prop :=
  ∀ (id : NodeId) (element : Element), document.Attached id →
    document.content id = .ok (.element element) → document.NamedAt id element

theorem NamedAt.known {element : Element} (named : document.NamedAt id element) :
    document.Known element := by
  intro handle member
  rcases List.mem_append.mp member with member | member
  · rcases named.own handle (Option.mem_toList.mp member) with ⟨binding, denoted, _⟩
    exact ⟨binding, denoted⟩
  · rcases List.mem_filterMap.mp member with ⟨held, heldMember, ns⟩
    rcases (named.attributes held heldMember handle ns).1 with ⟨binding, denoted, _⟩
    exact ⟨binding, denoted⟩

theorem ConsistentAt.named {element : Element}
    (consistent : document.ConsistentAt id element) :
    document.NamedAt id element :=
  ⟨consistent.own, consistent.attributes⟩

theorem Consistent.wellNamed (consistent : document.Consistent) : document.WellNamed :=
  fun id element attached held => (consistent id element attached held).named

theorem Attached.way (linked : document.Linked) (attached : document.Attached id) :
    ∃ before, document.Way id (before ++ [root]) :=
  Way.of_passes attached (.top linked.rootLoose)

theorem Attached.exists_way (linked : document.Linked) (attached : document.Attached id) :
    ∃ above, document.Way id (id :: above) := by
  rcases attached.way linked with ⟨before, way⟩
  rcases way.eq_cons with ⟨above, same⟩
  exact ⟨above, same ▸ way⟩

theorem Attached.inside (linked : document.Linked) (attached : document.Attached id) :
    id < document.size := by
  rcases Relation.ReflTransGen.cases_head attached with rfl | ⟨_, link, _⟩
  · exact linked.rootInside
  · exact lt_size_of_parentLink link

theorem attached_root : document.Attached root := .refl

theorem Attached.child {child : NodeId} (linked : document.Linked)
    (attached : document.Attached id) (member : child ∈ document.childLinks id) :
    document.Attached child :=
  .head (linked.listed.mp member) attached

theorem Attached.parent {parent : NodeId} (linked : document.Linked)
    (attached : document.Attached id) (link : document.parentLink id = some parent) :
    document.Attached parent := by
  rcases Relation.ReflTransGen.cases_head attached with rfl | ⟨other, otherLink, passes⟩
  · rw [linked.rootLoose] at link
    cases link
  · cases link.symm.trans otherLink
    exact passes

theorem Attached.above (linked : document.Linked) (attached : document.Attached id)
    {upper : NodeId} (passes : document.Passes id upper) : document.Attached upper := by
  induction passes with
  | refl => exact attached
  | tail _ link induction => exact induction.parent linked link

instance (handle : Handle) : Decidable (document.Names id handle) :=
  match known : document.binding handle with
  | .ok binding => decidable_of_iff
      (binding.uri ≠ "" ∧ document.findPrefix id binding.nsPrefix = .ok (some handle))
      (by simp [Names, known])
  | .error _ => .isFalse (by simp [Names, known])

instance : Decidable (document.Bare id) :=
  match default : document.findPrefix id none with
  | .ok none => .isTrue (.inl default)
  | .ok (some handle) =>
      match known : document.binding handle with
      | .ok binding =>
          decidable_of_iff (binding.uri = "") (by simp [Bare, default, known])
      | .error _ => .isFalse (by simp [Bare, default, known])
  | .error _ => .isFalse (by simp [Bare, default])

instance (handle : Handle) :
    Decidable (∃ binding, document.binding handle = .ok binding ∧
      binding.nsPrefix ≠ none) :=
  match known : document.binding handle with
  | .ok binding => decidable_of_iff (binding.nsPrefix ≠ none) (by simp)
  | .error _ => .isFalse (by simp)

instance (element : Element) : Decidable (document.ConsistentAt id element) :=
  decidable_of_iff
    ((∀ handle ∈ element.ns, document.Names id handle) ∧
      (element.ns = none → document.Bare id) ∧
      ∀ held ∈ element.attributes, ∀ handle ∈ held.ns, document.Names id handle ∧
        ∃ binding, document.binding handle = .ok binding ∧ binding.nsPrefix ≠ none)
    ⟨fun ⟨own, bare, attributes⟩ => ⟨own, bare, attributes⟩,
      fun ⟨own, bare, attributes⟩ => ⟨own, bare, attributes⟩⟩

theorem consistent_of_all (all : ∀ id < document.size,
    ∀ element ∈ document.nodes[id]?.bind (·.content.element?),
      document.ConsistentAt id element) : document.Consistent := by
  intro id element _ held
  rcases content_eq_element_iff.mp held with ⟨node, found, shape⟩
  exact all id (lt_size_of_node found) element (by simp [found, shape])

/-! ## Names in a scope -/

structure Tells (source : Document) (origin : Scope) (handle : Handle)
    (wanted : Binding) : Prop where
  known : source.binding handle = .ok wanted
  something : wanted.uri ≠ ""
  denoted : origin.denoted? wanted.nsPrefix = some ⟨handle, wanted⟩

theorem Tells.eq_xml {source : Document} {origin : Scope} {handle : Handle}
    {wanted : Binding} (tells : source.Tells origin handle wanted)
    (isXml : wanted.nsPrefix = some "xml") :
    handle = xmlHandle ∧ wanted = Binding.xml := by
  have denoted := tells.denoted
  rw [isXml] at denoted
  cases denoted
  exact ⟨rfl, rfl⟩

theorem Tells.not_reserved {source : Document} {origin : Scope} {handle : Handle}
    {wanted : Binding} (tells : source.Tells origin handle wanted)
    (coherent : origin.Coherent) (notXml : wanted.nsPrefix ≠ some "xml") :
    ∀ reserved ∈ Binding.reservedPrefixes, wanted.nsPrefix ≠ some reserved := by
  simp only [Binding.reservedPrefixes, List.mem_cons, List.not_mem_nil, or_false]
  rintro reserved (rfl | rfl) same
  · exact notXml same
  · rcases Scope.mem_or_xml_of_denoted tells.denoted with isXml | member
    · cases isXml
      exact absurd same (by decide)
    · exact coherent.xmlns _ member same

structure NamedIn (source : Document) (origin : Scope) (held : Element) : Prop where
  own : ∀ handle, held.ns = some handle → ∃ wanted, source.Tells origin handle wanted
  attributes : ∀ named ∈ held.attributes, ∀ handle, named.ns = some handle →
    ∃ wanted, source.Tells origin handle wanted ∧ wanted.nsPrefix ≠ none

structure ConsistentIn (source : Document) (origin : Scope) (held : Element) : Prop where
  own : ∀ handle, held.ns = some handle → ∃ wanted, source.Tells origin handle wanted
  bare : held.ns = none → ∀ found, origin.denoted? none = some found →
    found.binding.uri = ""
  attributes : ∀ named ∈ held.attributes, ∀ handle, named.ns = some handle →
    ∃ wanted, source.Tells origin handle wanted ∧ wanted.nsPrefix ≠ none

variable {source : Document} {nodes : List NodeId}

theorem Names.tells (linked : source.Linked) (way : source.Way id nodes)
    (inside : id < source.size) {handle : Handle} (names : source.Names id handle) :
    ∃ wanted, source.Tells (source.scopeAlong nodes) handle wanted := by
  rcases names with ⟨wanted, known, something, found⟩
  rw [way.findPrefix linked inside] at found
  rcases Option.map_eq_some_iff.mp (Except.ok.inj found) with ⟨declaration, denoted, rfl⟩
  cases known.symm.trans (linked.binding_of_denoted denoted)
  exact ⟨_, known, something, denoted⟩

theorem NamedAt.inScope (linked : source.Linked) (way : source.Way id nodes)
    (inside : id < source.size) {held : Element} (named : source.NamedAt id held) :
    source.NamedIn (source.scopeAlong nodes) held where
  own := fun handle own => (named.own handle own).tells linked way inside
  attributes := by
    intro attr member handle own
    rcases named.attributes attr member handle own with ⟨names, binding, known, prefixed⟩
    rcases names.tells linked way inside with ⟨wanted, tells⟩
    cases known.symm.trans tells.known
    exact ⟨_, tells, prefixed⟩

theorem ConsistentAt.inScope (linked : source.Linked) (way : source.Way id nodes)
    (inside : id < source.size) {held : Element}
    (consistent : source.ConsistentAt id held) :
    source.ConsistentIn (source.scopeAlong nodes) held where
  own := (consistent.named.inScope linked way inside).own
  attributes := (consistent.named.inScope linked way inside).attributes
  bare := by
    intro absent found denoted
    have answered := way.findPrefix linked inside none
    rw [denoted] at answered
    rcases consistent.bare absent with nothing | ⟨handle, binding, default, known, empty⟩
    · rw [nothing] at answered
      cases answered
    · rw [default] at answered
      cases answered
      cases known.symm.trans (linked.binding_of_denoted denoted)
      exact empty

theorem ConsistentIn.named {origin : Scope} {held : Element}
    (consistent : source.ConsistentIn origin held) : source.NamedIn origin held :=
  ⟨consistent.own, consistent.attributes⟩

end Document

end ResultTree
