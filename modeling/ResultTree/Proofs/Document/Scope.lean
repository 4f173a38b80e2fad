import ResultTree.Proofs.Document.Ascent
import ResultTree.Proofs.Document.Bindings

namespace ResultTree

/-! What a scope answers, as declarations rather than handles: the declaration
that a prefix denotes and the one that is taken for a URI. A declaration that is
taken for a URI is what its own prefix denotes, and a URI that some prefix denotes
is always found. -/

def Declaration.xml : Declaration := ⟨Document.xmlHandle, Binding.xml⟩

namespace Scope

def denoted? (scope : Scope) (nsPrefix : Option String) : Option Declaration :=
  if nsPrefix = some "xml" then some .xml
  else scope.declarations.find? (·.binding.nsPrefix = nsPrefix)

def taken? (scope : Scope) (uri : String) : Option Declaration :=
  if uri = xmlUri then some .xml
  else scope.declarations.find? fun declaration =>
    declaration.binding.uri = uri &&
      scope.nearest? declaration.binding.nsPrefix = some declaration.handle

/-- A scope as the way up from a node of an orderly document makes it. -/
structure Coherent (scope : Scope) : Prop where
  unique : ∀ left ∈ scope.declarations, ∀ right ∈ scope.declarations,
    left.handle = right.handle → left = right
  xml : ∀ declaration ∈ scope.declarations,
    declaration.binding.nsPrefix = some "xml" → declaration = .xml
  xmlns : ∀ declaration ∈ scope.declarations, declaration.binding.nsPrefix ≠ some "xmlns"

variable {scope : Scope} {nsPrefix : Option String} {uri : String} {found : Declaration}

theorem prefix_of_denoted (denoted : scope.denoted? nsPrefix = some found) :
    found.binding.nsPrefix = nsPrefix := by
  unfold denoted? at denoted
  split at denoted
  · next isXml =>
      cases denoted
      exact isXml.symm
  · simpa using List.find?_some denoted

theorem mem_or_xml_of_denoted (denoted : scope.denoted? nsPrefix = some found) :
    found = .xml ∨ found ∈ scope.declarations := by
  unfold denoted? at denoted
  split at denoted
  · cases denoted
    exact .inl rfl
  · exact .inr (List.mem_of_find?_eq_some denoted)

theorem mem_or_xml_of_taken (taken : scope.taken? uri = some found) :
    found = .xml ∨ found ∈ scope.declarations := by
  unfold taken? at taken
  split at taken
  · cases taken
    exact .inl rfl
  · exact .inr (List.mem_of_find?_eq_some taken)

theorem uri_of_taken (taken : scope.taken? uri = some found) :
    found.binding.uri = uri := by
  unfold taken? at taken
  split at taken
  · next isXml =>
      cases taken
      exact isXml.symm
  · have satisfied := List.find?_some taken
    simp only [Bool.and_eq_true, decide_eq_true_eq] at satisfied
    exact satisfied.1

theorem nearest?_eq_map_find? : scope.nearest? nsPrefix =
    (scope.declarations.find? (·.binding.nsPrefix = nsPrefix)).map Declaration.handle :=
      rfl

theorem conclude_of_ended {α : Type} (ended : scope.endless = false) (answer : Option α) :
    scope.conclude answer = .ok answer := by
  simp [conclude, ended]

/-- In a coherent scope the prefix of what is taken for a URI denotes just that. -/
theorem Coherent.denoted_of_taken (coherent : scope.Coherent)
    (taken : scope.taken? uri = some found) :
    scope.denoted? found.binding.nsPrefix = some found := by
  unfold taken? at taken
  split at taken
  · cases taken
    rfl
  · have member := List.mem_of_find?_eq_some taken
    have satisfied := List.find?_some taken
    simp only [Bool.and_eq_true, decide_eq_true_eq] at satisfied
    rcases Option.map_eq_some_iff.mp (nearest?_eq_map_find? ▸ satisfied.2) with
      ⟨nearest, nearestFound, sameHandle⟩
    have same :=
      coherent.unique nearest (List.mem_of_find?_eq_some nearestFound) found member
        sameHandle
    unfold denoted?
    split
    · next isXml => rw [coherent.xml found member isXml]
    · rw [nearestFound, same]

theorem exists_taken_of_denoted (denoted : scope.denoted? nsPrefix = some found) :
    ∃ taken, scope.taken? found.binding.uri = some taken := by
  have own := prefix_of_denoted denoted
  unfold denoted? at denoted
  unfold taken?
  split at denoted
  · cases denoted
    exact ⟨.xml, rfl⟩
  · split
    · exact ⟨.xml, rfl⟩
    · refine Option.isSome_iff_exists.mp (List.find?_isSome.mpr ⟨found, ?_, ?_⟩)
      · exact List.mem_of_find?_eq_some denoted
      · simp [nearest?_eq_map_find?, own, denoted]

theorem find?_filter_other {hider : Option String} (different : hider ≠ nsPrefix)
    (declarations : List Declaration) :
    (declarations.filter fun declaration =>
        decide (declaration.binding.nsPrefix = hider) = false).find?
        (·.binding.nsPrefix = nsPrefix) =
      declarations.find? (·.binding.nsPrefix = nsPrefix) := by
  rw [List.find?_filter]
  congr 1
  funext declaration
  by_cases own : declaration.binding.nsPrefix = nsPrefix <;> simp [own, different.symm]

theorem mem_eraseDupsBy_iff {declarations : List Declaration} :
    found ∈ (declarations.eraseDupsBy fun farther nearer =>
        farther.binding.nsPrefix = nearer.binding.nsPrefix) ↔
      declarations.find? (·.binding.nsPrefix = found.binding.nsPrefix) = some found := by
  generalize bound : declarations.length = length
  induction length using Nat.strongRecOn generalizing declarations with
  | ind length induction =>
      cases declarations with
      | nil => simp
      | cons nearest rest =>
          have shorter : (rest.filter fun declaration =>
              decide (declaration.binding.nsPrefix = nearest.binding.nsPrefix) =
                false).length < length :=
            Nat.lt_of_le_of_lt (List.length_filter_le _ _) (by simp [← bound])
          rw [List.eraseDupsBy_cons, List.mem_cons, induction _ shorter rfl]
          by_cases same : nearest.binding.nsPrefix = found.binding.nsPrefix
          · have hidden : ¬ (rest.filter fun declaration =>
                decide (declaration.binding.nsPrefix = nearest.binding.nsPrefix) =
                  false).find? (·.binding.nsPrefix = found.binding.nsPrefix) =
                some found := by
              intro later
              have member := (List.mem_filter.mp (List.mem_of_find?_eq_some later)).2
              simp [same] at member
            rw [List.find?_cons_of_pos (by simpa using same)]
            simp only [hidden, or_false, Option.some.injEq]
            exact eq_comm
          · have different : found ≠ nearest := fun equal => same (equal ▸ rfl)
            rw [List.find?_cons_of_neg (by simpa using same)]
            simp only [different, false_or, find?_filter_other same rest]

/-- What is visible is what its own prefix finds first. -/
theorem mem_visible_iff : found ∈ scope.visible ↔
    scope.declarations.find? (·.binding.nsPrefix = found.binding.nsPrefix) = some found :=
  mem_eraseDupsBy_iff

theorem Coherent.denoted_of_mem_visible (coherent : scope.Coherent)
    (member : found ∈ scope.visible) :
    scope.denoted? found.binding.nsPrefix = some found := by
  have first := mem_visible_iff.mp member
  unfold denoted?
  split
  · next isXml => rw [coherent.xml found (List.mem_of_find?_eq_some first) isXml]
  · exact first

theorem Coherent.mem_visible_of_denoted (coherent : scope.Coherent)
    (rooted : Declaration.xml ∈ scope.declarations)
    (denoted : scope.denoted? nsPrefix = some found) : found ∈ scope.visible := by
  have own := prefix_of_denoted denoted
  subst own
  rw [mem_visible_iff]
  unfold denoted? at denoted
  split at denoted
  · next isXml =>
      cases denoted
      have declared : (scope.declarations.find?
          (·.binding.nsPrefix = Declaration.xml.binding.nsPrefix)).isSome :=
        List.find?_isSome.mpr ⟨Declaration.xml, rooted, by simp⟩
      rcases Option.isSome_iff_exists.mp declared with ⟨first, foundFirst⟩
      have samePrefix : first.binding.nsPrefix = Declaration.xml.binding.nsPrefix := by
        simpa using List.find?_some foundFirst
      have member := List.mem_of_find?_eq_some foundFirst
      rw [foundFirst, coherent.xml first member (samePrefix.trans isXml)]
  · exact denoted

end Scope

namespace Document

variable {document : Document} {id : NodeId} {nodes : List NodeId}

/-! ## The scope along a way -/

def scopeAlong (document : Document) (nodes : List NodeId) : Scope :=
  ⟨nodes.flatMap document.declared, false⟩

theorem declared_of {node : Node} (found : document.nodes[id]? = some node) :
    document.declared id =
      node.content.declarations.mapIdx fun index binding => ⟨⟨id, index⟩, binding⟩ := by
  simp [declared, found]

theorem scopeAlong_of_undeclared {content : Content}
    (held : document.content id = .ok content) (nothing : content.declarations = [])
    (nodes : List NodeId) :
    document.scopeAlong (id :: nodes) = document.scopeAlong nodes := by
  rcases content_eq_ok_iff.mp held with ⟨node, found, shape⟩
  simp [scopeAlong, declared_of found, shape, nothing]

theorem Linked.scopeAlong_root (linked : document.Linked) :
    document.scopeAlong [root] = ⟨[Declaration.xml], false⟩ := by
  rcases linked.top with ⟨node, found, shape, _⟩
  simp only [scopeAlong, List.flatMap_cons, List.flatMap_nil, declared_of found, shape]
  rfl

theorem binding_of_mem_declared {declaration : Declaration}
    (member : declaration ∈ document.declared id) :
    declaration.handle.owner = id ∧
      document.binding declaration.handle = .ok declaration.binding := by
  cases found : document.nodes[id]? with
  | none => simp [declared, found] at member
  | some node =>
      rw [declared_of found, List.mem_mapIdx] at member
      rcases member with ⟨index, inside, same⟩
      rw [← same]
      exact ⟨rfl, binding_eq_ok_iff.mpr ⟨node, found, List.getElem?_eq_getElem inside⟩⟩

/-- Every declaration in scope is known by its handle, on an endless way too. -/
theorem binding_of_mem_scope {scope : Scope} {declaration : Declaration}
    (known : document.scope id = .ok scope) (member : declaration ∈ scope.declarations) :
    document.binding declaration.handle = .ok declaration.binding := by
  rcases Reading.bind_eq_ok_iff.mp known with ⟨ascent, _, same⟩
  cases same
  rcases List.mem_flatMap.mp member with ⟨passed, _, member⟩
  exact (binding_of_mem_declared member).2

theorem Linked.binding_xml (linked : document.Linked) :
    document.binding xmlHandle = .ok Binding.xml := by
  rcases linked.top with ⟨node, found, shape, _⟩
  exact binding_eq_ok_iff.mpr ⟨node, found, by rw [shape]; rfl⟩

theorem Linked.binding_of_findPrefix (linked : document.Linked) {nsPrefix : Option String}
    {handle : Handle} (found : document.findPrefix id nsPrefix = .ok (some handle)) :
    ∃ binding, document.binding handle = .ok binding := by
  unfold Document.findPrefix at found
  split at found
  · cases found
    exact ⟨_, linked.binding_xml⟩
  · rcases Reading.bind_eq_ok_iff.mp found with ⟨scope, known, concluded⟩
    unfold Scope.conclude at concluded
    split at concluded
    · cases concluded
    · have nearest := Except.ok.inj concluded
      rcases Option.map_eq_some_iff.mp nearest with ⟨declaration, foundFirst, rfl⟩
      exact ⟨_, binding_of_mem_scope known (List.mem_of_find?_eq_some foundFirst)⟩

theorem Way.scopeAlong (linked : document.Linked) (way : document.Way id nodes)
    (inside : id < document.size) : document.scope id = .ok (document.scopeAlong nodes) :=
  way.scope linked inside

theorem Way.findPrefix (linked : document.Linked) (way : document.Way id nodes)
    (inside : id < document.size) (nsPrefix : Option String) :
    document.findPrefix id nsPrefix =
      .ok (((document.scopeAlong nodes).denoted? nsPrefix).map Declaration.handle) := by
  unfold Document.findPrefix Scope.denoted?
  split
  · rfl
  · rw [way.scopeAlong linked inside]
    exact Scope.conclude_of_ended rfl _

theorem Way.findUri (linked : document.Linked) (way : document.Way id nodes)
    (inside : id < document.size) (uri : String) :
    document.findUri id uri =
      .ok (((document.scopeAlong nodes).taken? uri).map Declaration.handle) := by
  unfold Document.findUri Scope.taken?
  split
  · rfl
  · rw [way.scopeAlong linked inside]
    exact Scope.conclude_of_ended rfl _

theorem Way.inScope (linked : document.Linked) (way : document.Way id nodes)
    (inside : id < document.size) :
    document.inScope id = .ok (document.scopeAlong nodes).visible := by
  rw [Document.inScope, way.scopeAlong linked inside]
  rfl

theorem binding_of_mem_scopeAlong {declaration : Declaration}
    (member : declaration ∈ (document.scopeAlong nodes).declarations) :
    document.binding declaration.handle = .ok declaration.binding := by
  rcases List.mem_flatMap.mp member with ⟨passed, _, member⟩
  exact (binding_of_mem_declared member).2

theorem Linked.binding_of_denoted (linked : document.Linked) {nsPrefix : Option String}
    {declaration : Declaration}
    (denoted : (document.scopeAlong nodes).denoted? nsPrefix = some declaration) :
    document.binding declaration.handle = .ok declaration.binding := by
  rcases Scope.mem_or_xml_of_denoted denoted with rfl | member
  · exact linked.binding_xml
  · exact binding_of_mem_scopeAlong member

theorem xml_or_held_of_mem_declared (linked : document.Linked) {declaration : Declaration}
    (member : declaration ∈ document.declared id) :
    declaration = .xml ∨ ∃ element, document.content id = .ok (.element element) ∧
      declaration.binding ∈ element.declarations := by
  cases found : document.nodes[id]? with
  | none => simp [declared, found] at member
  | some node =>
      rw [declared_of found, List.mem_mapIdx] at member
      rcases member with ⟨index, inside, same⟩
      cases shape : node.content with
      | document =>
          left
          simp only [shape, Content.declarations, List.length_singleton, Nat.lt_one_iff]
            at inside same
          rw [← same, linked.onlyTop found shape]
          simp [inside, Declaration.xml, xmlHandle]
      | element element =>
          right
          simp only [shape, Content.declarations] at inside same
          refine ⟨element, content_eq_ok_iff.mpr ⟨node, found, shape⟩, ?_⟩
          rw [← same]
          exact List.getElem_mem inside
      | _ => simp [shape, Content.declarations] at inside

theorem coherent_scopeAlong (linked : document.Linked) (orderly : document.AllOrderly)
    (nodes : List NodeId) : (document.scopeAlong nodes).Coherent where
  unique := by
    intro left leftMember right rightMember same
    have leftKnown := binding_of_mem_scopeAlong leftMember
    have rightKnown := binding_of_mem_scopeAlong rightMember
    rw [same, rightKnown] at leftKnown
    cases left
    cases right
    cases same
    cases leftKnown
    rfl
  xml := by
    intro declaration member isXml
    rcases List.mem_flatMap.mp member with ⟨passed, _, member⟩
    rcases xml_or_held_of_mem_declared linked member with same | ⟨element, held, declared⟩
    · exact same
    · exact absurd isXml ((orderly _ _ held).tidy.unreserved _ declared "xml" (by decide))
  xmlns := by
    intro declaration member
    rcases List.mem_flatMap.mp member with ⟨passed, _, member⟩
    rcases xml_or_held_of_mem_declared linked member with same | ⟨element, held, declared⟩
    · rw [same]
      decide
    · exact (orderly _ _ held).tidy.unreserved _ declared "xmlns" (by decide)

end Document

end ResultTree
