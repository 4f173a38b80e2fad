import ResultTree.Proofs.Transform.FreePrefix
import ResultTree.Proofs.Transform.Site

namespace ResultTree

/-! The edits that write the copy of an element do what the relations on sites say. All
of them replace what the element at the site holds and leave every other node, so the
document is at any time a page: the document that they started with, where the element
is what has been written so far. -/

theorem Scope.not_mem_excluded_iff {scope : Scope} {text : String} :
    some text ∉ Binding.reservedPrefixes.map some ++
        scope.visible.map (·.binding.nsPrefix) ↔
      text ∉ Binding.reservedPrefixes ∧ scope.denoted? (some text) = none := by
  rw [List.mem_append, not_or, List.mem_map_of_injective (Option.some_injective _)]
  refine and_congr_right fun unreserved => ?_
  have notXml : some text ≠ some "xml" := by
    rintro ⟨⟩
    exact unreserved (by decide)
  rw [Scope.denoted?, if_neg notXml]
  constructor
  · intro unseen
    rw [Option.eq_none_iff_forall_ne_some]
    intro found first
    have own : found.binding.nsPrefix = some text := by simpa using List.find?_some first
    exact unseen (List.mem_map.mpr ⟨found, mem_visible_iff.mpr (by rw [own, first]), own⟩)
  · intro nothing member
    rcases List.mem_map.mp member with ⟨found, visible, own⟩
    have first := mem_visible_iff.mp visible
    rw [own, nothing] at first
    cases first

/-! ## What the relations answer with -/

def Site.Places (site : Site) (bindings : List Binding) (declaration : Declaration) :
    Prop :=
  declaration = .xml ∨ declaration ∈ (site.scope bindings).declarations

namespace Site

variable {site : Site} {present changed : List Binding} {binding : Binding}
  {answer : Option Declaration} {found : Declaration}

theorem Places.mono (places : site.Places present found) (longer : present <+: changed) :
    site.Places changed found := by
  rcases places with same | member
  · exact .inl same
  · rcases List.mem_append.mp member with member | member
    · rcases longer with ⟨rest, rfl⟩
      refine .inr (List.mem_append_left _ (mem_declared_iff.mpr ?_))
      rcases mem_declared_iff.mp member with ⟨owner, held⟩
      refine ⟨owner, ?_⟩
      rw [List.getElem?_append_left (List.getElem?_eq_some_iff.mp held).1, held]
    · exact .inr (List.mem_append_right _ member)

theorem added_mem_declared (present : List Binding) (binding : Binding) :
    site.added present binding ∈ site.declared (present ++ [binding]) := by
  rw [declared_append]
  simp

theorem Declares.longer (declares : site.Declares present binding answer changed) :
    present <+: changed := by
  cases declares with
  | declared _ => exact List.prefix_append _ _
  | refused _ => exact List.prefix_refl _

theorem Declares.mem_or (declares : site.Declares present binding answer changed) :
    ∀ declared ∈ changed, declared ∈ present ∨ declared = binding := by
  intro declared member
  cases declares with
  | declared _ => simpa using member
  | refused _ => exact .inl member

theorem Declares.mem (declares : site.Declares present binding (some found) changed) :
    found ∈ site.declared changed := by
  cases declares with
  | declared _ => exact added_mem_declared _ _

theorem Declares.tidy (tidy : Document.Tidy present)
    (declares : site.Declares present binding answer changed) :
    Document.Tidy changed := by
  cases declares with
  | declared declarable => exact tidy.declare declarable
  | refused _ => exact tidy

theorem denoted_append_of_ne {nsPrefix : Option String} (tidy : Document.Tidy present)
    (declarable : Document.Declarable present binding)
    (other : binding.nsPrefix ≠ nsPrefix)
    (denoted : (site.scope present).denoted? nsPrefix = some found) :
    (site.scope (present ++ [binding])).denoted? nsPrefix = some found := by
  refine (denoted_scope_iff (tidy.declare declarable)).mpr ?_
  refine ((denoted_scope_iff tidy).mp denoted).imp ?_ ?_
  · rintro ⟨member, own⟩
    rw [declared_append]
    exact ⟨List.mem_append_left _ member, own⟩
  · rintro ⟨outer, undeclared⟩
    refine ⟨outer, fun declared member => ?_⟩
    rcases List.mem_append.mp member with member | member
    · exact undeclared declared member
    · rwa [List.mem_singleton.mp member]

theorem declarable_default {inherited : Declaration} (tidy : Document.Tidy present)
    (denoted : (site.scope present).denoted? none = some inherited)
    (elsewhere : inherited.handle.owner ≠ site.id) :
    Document.Declarable present ⟨none, ""⟩ := by
  refine ⟨by simp, fun declared member => ?_⟩
  rcases (denoted_scope_iff tidy).mp denoted with ⟨own, _⟩ | ⟨_, undeclared⟩
  · exact absurd (mem_declared_iff.mp own).1 elsewhere
  · exact undeclared declared member

theorem undeclareDefault_cases (tidy : Document.Tidy present) :
    site.undeclareDefault present = present ∨
      Document.Declarable present ⟨none, ""⟩ ∧
        site.undeclareDefault present = present ++ [⟨none, ""⟩] := by
  unfold undeclareDefault
  cases denoted : (site.scope present).denoted? none with
  | none => exact .inl rfl
  | some inherited =>
      by_cases harmless : inherited.handle.owner = site.id ∨ inherited.binding.uri = ""
      · exact .inl (if_pos harmless)
      · exact .inr ⟨declarable_default tidy denoted fun own => harmless (.inl own),
          if_neg harmless⟩

theorem denoted_eq_none_of_free {base nsPrefix : String}
    (free : freePrefix? ((site.scope present).visible.map (·.binding.nsPrefix)) base =
      some nsPrefix) : (site.scope present).denoted? (some nsPrefix) = none :=
  (Scope.not_mem_excluded_iff.mp (not_mem_excluded_of_freePrefix free)).2

theorem outer_denoted_eq_none_of_free {base nsPrefix : String}
    (free : freePrefix? ((site.scope present).visible.map (·.binding.nsPrefix)) base =
      some nsPrefix) : site.outer.denoted? (some nsPrefix) = none := by
  have nothing := denoted_eq_none_of_free free
  rw [denoted_scope (not_reserved_of_freePrefix free "xml" (by decide)),
    Option.or_eq_none_iff] at nothing
  exact nothing.2

theorem declarable_of_free {base nsPrefix : String} (tidy : Document.Tidy present)
    (free : freePrefix? ((site.scope present).visible.map (·.binding.nsPrefix)) base =
      some nsPrefix) (uri : String) :
    Document.Declarable present ⟨some nsPrefix, uri⟩ where
  notReserved := not_reserved_of_freePrefix free
  unused := by
    intro declared member same
    rw [← @map_binding_declared site present] at member
    rcases List.mem_map.mp member with ⟨own, ownMember, rfl⟩
    have denoted := denoted_scope_of_mem tidy ownMember
    rw [same, denoted_eq_none_of_free free] at denoted
    cases denoted

theorem places_of_denoted {nsPrefix : Option String}
    (denoted : (site.scope present).denoted? nsPrefix = some found) :
    site.Places present found :=
  Scope.mem_or_xml_of_denoted denoted

end Site

namespace AliasTable

variable {table : AliasTable} {source : Document} {site : Site}
  {present changed : List Binding} {own answer : Option Declaration} {wanted : Binding}
  {found : Declaration}

theorem Resolves.longer
    (resolved : table.Resolves site present own wanted answer changed) :
    present <+: changed := by
  cases resolved with
  | missing _ _ declares => exact declares.longer
  | _ => exact List.prefix_refl _

theorem Resolves.tidy (tidy : Document.Tidy present)
    (resolved : table.Resolves site present own wanted answer changed) :
    Document.Tidy changed := by
  cases resolved with
  | missing _ _ declares => exact declares.tidy tidy
  | _ => exact tidy

theorem Resolves.own_or_places
    (resolved : table.Resolves site present own wanted (some found) changed) :
    own = some found ∨ site.Places changed found := by
  cases resolved with
  | own _ _ _ => exact .inl rfl
  | taken _ taken => exact .inr (Scope.mem_or_xml_of_taken taken)
  | missing _ _ declares => exact .inr (.inr (List.mem_append_left _ declares.mem))

theorem prefixed?_spec {scope : Scope} {uri : String}
    (prefixed : prefixed? scope uri = some found) :
    found ∈ scope.visible ∧ found.binding.nsPrefix ≠ none ∧ found.binding.uri = uri := by
  have satisfied := List.find?_some prefixed
  simp only [Bool.and_eq_true, Option.isSome_iff_ne_none, decide_eq_true_eq] at satisfied
  exact ⟨List.mem_of_find?_eq_some prefixed, satisfied⟩

theorem ResolvesAttribute.longer
    (resolved : table.ResolvesAttribute site present own wanted answer changed) :
    present <+: changed := by
  cases resolved with
  | nothing resolved => exact resolved.longer
  | named resolved _ => exact resolved.longer
  | replaced resolved _ _ => exact resolved.longer
  | invented resolved _ _ _ declares => exact resolved.longer.trans declares.longer

theorem ResolvesAttribute.tidy (tidy : Document.Tidy present)
    (resolved : table.ResolvesAttribute site present own wanted answer changed) :
    Document.Tidy changed := by
  cases resolved with
  | nothing resolved => exact resolved.tidy tidy
  | named resolved _ => exact resolved.tidy tidy
  | replaced resolved _ _ => exact resolved.tidy tidy
  | invented resolved _ _ _ declares => exact declares.tidy (resolved.tidy tidy)

theorem ResolvesAttribute.own_or_places
    (resolved : table.ResolvesAttribute site present own wanted (some found) changed) :
    own = some found ∨ site.Places changed found := by
  cases resolved with
  | named resolved _ => exact resolved.own_or_places
  | replaced _ _ visible =>
      have seen := Scope.mem_visible_iff.mp (prefixed?_spec visible).1
      exact .inr (.inr (List.mem_of_find?_eq_some seen))
  | invented _ _ _ _ declares => exact .inr (.inr (List.mem_append_left _ declares.mem))

theorem Writes.own_eq {attributes : List Attribute} {written last : Written}
    (writes : table.Writes source site attributes written last) :
    last.own = written.own := by
  induction writes with
  | done _ => rfl
  | next _ _ induction => exact induction

end AliasTable

namespace Document.StandsIn

variable {source : Document}
  {resolves : Binding → Option Declaration → List Binding → Prop}
  {present changed : List Binding} {ns : Option Handle} {answer : Option Declaration}

theorem longer (named : source.StandsIn resolves present ns answer changed)
    (each : ∀ {wanted answer changed}, resolves wanted answer changed →
      present <+: changed) :
    present <+: changed := by
  cases named with
  | absent => exact List.prefix_refl _
  | found _ resolved => exact each resolved

theorem tidy (named : source.StandsIn resolves present ns answer changed)
    (tidy : Document.Tidy present)
    (each : ∀ {wanted answer changed}, resolves wanted answer changed →
      Document.Tidy changed) :
    Document.Tidy changed := by
  cases named with
  | absent => exact tidy
  | found _ resolved => exact each resolved

end Document.StandsIn

/-! ## Looking at a page -/

theorem Document.scopeAlong_eq_scope {document : Document} {id : NodeId}
    {nodes : List NodeId} {element : Element}
    (held : document.content id = .ok (.element element)) :
    document.scopeAlong (id :: nodes) =
      Site.scope ⟨id, nodes.flatMap document.declared⟩ element.declarations := by
  rcases Document.content_eq_ok_iff.mp held with ⟨node, found, shape⟩
  simp only [Document.scopeAlong, List.flatMap_cons, Document.declared_of found, shape]
  rfl

theorem Document.Way.sound {document : Document} {id : NodeId} {nodes : List NodeId}
    {element : Element} (way : document.Way id (id :: nodes)) (linked : document.Linked)
    (orderly : document.AllOrderly)
    (held : document.content id = .ok (.element element)) :
    Site.Sound ⟨id, nodes.flatMap document.declared⟩ where
  coherent := Document.coherent_scopeAlong linked orderly nodes
  elsewhere := by
    intro declaration member same
    rcases List.mem_flatMap.mp member with ⟨other, otherMember, member⟩
    have here : other = id := (Document.binding_of_mem_declared member).1.symm.trans same
    exact (List.nodup_cons.mp way.nodup).1 (here ▸ otherMember)
  notRoot := by
    intro same
    rcases linked.top with ⟨node, found, shape, _⟩
    rw [show id = Document.root from same, Document.content_of found, shape] at held
    cases held

namespace Site

/-- The document in which an element has been written at a site. -/
def page (site : Site) (document : Document) (name : String) (written : Written) :
    Document :=
  document.putElement site.id (written.element name)

theorem Places.binding {document : Document} {id : NodeId} {nodes : List NodeId}
    {element : Element} (linked : document.Linked)
    (held : document.content id = .ok (.element element)) {declaration : Declaration}
    (places :
      Places ⟨id, nodes.flatMap document.declared⟩ element.declarations declaration) :
    document.binding declaration.handle = .ok declaration.binding := by
  rcases places with rfl | member
  · exact linked.binding_xml
  · rw [← Document.scopeAlong_eq_scope held] at member
    exact Document.binding_of_mem_scopeAlong member

theorem uri?_of_places {document : Document} {id : NodeId} {nodes : List NodeId}
    {element : Element} (linked : document.Linked)
    (held : document.content id = .ok (.element element)) {ns : Option Declaration}
    (places : ∀ declaration, ns = some declaration →
      Places ⟨id, nodes.flatMap document.declared⟩ element.declarations declaration) :
    document.uri? (ns.map Declaration.handle) = .ok (ns.map (·.binding.uri)) := by
  cases ns with
  | none => rfl
  | some declaration => exact Document.uri?_some_of ((places _ rfl).binding linked held)

structure Ready (site : Site) (document : Document) (name : String) : Prop where
  linked : document.Linked
  held : document.content site.id = .ok (.element { name })
  way : ∃ nodes, document.Way site.id (site.id :: nodes) ∧
    site.above = nodes.flatMap document.declared

/-- What can have been written at a site: the declarations are tidy, and every
declaration that a name refers to is in scope. -/
structure Admits (site : Site) (written : Written) : Prop where
  tidy : Document.Tidy written.declarations
  places : ∀ declaration ∈ written.names, site.Places written.declarations declaration

end Site

theorem Document.Way.ready {document : Document} {id : NodeId} {nodes : List NodeId}
    {element : Element} (way : document.Way id (id :: nodes)) (linked : document.Linked)
    (held : document.content id = .ok (.element element)) (name : String) :
    Site.Ready ⟨id, nodes.flatMap document.declared⟩ (document.putElement id { name })
      name where
  linked := linked.putElement held _
  held := Document.content_putElement _ held
  way := by
    refine ⟨nodes, way.of_sameLinks fun _ _ => Document.parentLink_putElement _ _, ?_⟩
    refine List.flatMap_congr fun other member => ?_
    have different : other ≠ id := fun same =>
      (List.nodup_cons.mp way.nodup).1 (same ▸ member)
    simp only [Document.declared, Document.nodes_putElement]
    cases document.nodes[other]? <;> simp [different]

namespace Site.Ready

variable {site : Site} {document : Document} {name : String} (written : Written)

theorem sound (ready : site.Ready document name) (orderly : document.AllOrderly) :
    site.Sound := by
  rcases ready.way with ⟨nodes, way, above⟩
  have sound := way.sound ready.linked orderly ready.held
  rwa [← above] at sound

theorem page_fresh (ready : site.Ready document name) :
    site.page document name {} = document :=
  Document.putElement_self ready.held

theorem page_held (ready : site.Ready document name) :
    (site.page document name written).content site.id =
      .ok (.element (written.element name)) :=
  Document.content_putElement _ ready.held

theorem page_linked (ready : site.Ready document name) :
    (site.page document name written).Linked :=
  ready.linked.putElement ready.held _

theorem inside (ready : site.Ready document name) : site.id < document.size :=
  Document.lt_size_of_content ready.held

theorem page_inside (ready : site.Ready document name) :
    site.id < (site.page document name written).size := by
  rw [page, Document.size_putElement]
  exact ready.inside

theorem declared_page (ready : site.Ready document name) :
    (site.page document name written).declared site.id =
      site.declared written.declarations := by
  rcases Document.content_eq_ok_iff.mp (ready.page_held written) with
    ⟨node, found, shape⟩
  rw [Document.declared_of found, shape]
  rfl

theorem declared_page_other {other : NodeId} (different : other ≠ site.id) :
    (site.page document name written).declared other = document.declared other := by
  simp only [Document.declared, page, Document.nodes_putElement]
  cases document.nodes[other]? <;> simp [different]

theorem page_way (ready : site.Ready document name) :
    ∃ nodes, (site.page document name written).Way site.id (site.id :: nodes) ∧
      (site.page document name written).scopeAlong (site.id :: nodes) =
        site.scope written.declarations := by
  rcases ready.way with ⟨nodes, way, above⟩
  refine ⟨nodes, way.of_sameLinks fun _ _ => Document.parentLink_putElement _ _, ?_⟩
  have others : nodes.flatMap (site.page document name written).declared =
      site.above := by
    rw [above]
    refine List.flatMap_congr fun other member =>
      declared_page_other written fun same => ?_
    exact (List.nodup_cons.mp way.nodup).1 (same ▸ member)
  simp only [Document.scopeAlong, List.flatMap_cons, ready.declared_page written,
    others, scope]

theorem page_findPrefix (ready : site.Ready document name) (nsPrefix : Option String) :
    (site.page document name written).findPrefix site.id nsPrefix =
      .ok (((site.scope written.declarations).denoted? nsPrefix).map
        Declaration.handle) := by
  rcases ready.page_way written with ⟨nodes, way, scope⟩
  rw [way.findPrefix (ready.page_linked written) (ready.page_inside written), scope]

theorem page_findUri (ready : site.Ready document name) (uri : String) :
    (site.page document name written).findUri site.id uri =
      .ok (((site.scope written.declarations).taken? uri).map Declaration.handle) := by
  rcases ready.page_way written with ⟨nodes, way, scope⟩
  rw [way.findUri (ready.page_linked written) (ready.page_inside written), scope]

theorem page_inScope (ready : site.Ready document name) :
    (site.page document name written).inScope site.id =
      .ok (site.scope written.declarations).visible := by
  rcases ready.page_way written with ⟨nodes, way, scope⟩
  rw [way.inScope (ready.page_linked written) (ready.page_inside written), scope]

theorem page_binding (ready : site.Ready document name) {declaration : Declaration}
    (places : site.Places written.declarations declaration) :
    (site.page document name written).binding declaration.handle =
      .ok declaration.binding := by
  rcases places with rfl | member
  · exact (ready.page_linked written).binding_xml
  · rcases ready.page_way written with ⟨nodes, _, scope⟩
    rw [← scope] at member
    exact Document.binding_of_mem_scopeAlong member

theorem page_uri? (ready : site.Ready document name) {ns : Option Declaration}
    (places : ∀ declaration, ns = some declaration →
      site.Places written.declarations declaration) :
    (site.page document name written).uri? (ns.map Declaration.handle) =
      .ok (ns.map (·.binding.uri)) := by
  cases ns with
  | none => rfl
  | some declaration =>
      exact Document.uri?_some_of (ready.page_binding written (places _ rfl))

/-! ## Writing -/

theorem put (changed : Written) :
    (site.page document name written).putElement site.id (changed.element name) =
      site.page document name changed :=
  Document.putElement_putElement _ _

theorem attempt_declare (ready : site.Ready document name) (nsPrefix : Option String)
    (uri : String) :
    ∃ answer declarations,
      site.Declares written.declarations ⟨nsPrefix, uri⟩ answer declarations ∧
      Edit.outcome (Edit.attempt (Edit.declare site.id nsPrefix uri))
          (site.page document name written) =
        (.ok (.ok (answer.map Declaration.handle)),
          site.page document name { written with declarations }) := by
  have held := ready.page_held written
  by_cases declarable : Document.Declarable written.declarations ⟨nsPrefix, uri⟩
  · refine ⟨_, _, .declared declarable, ?_⟩
    rw [Edit.outcome_attempt, Edit.outcome_declare_of held declarable]
    exact Prod.ext rfl (@put site document name written
      { written with declarations := written.declarations ++ [⟨nsPrefix, uri⟩] })
  · exact ⟨_, _, .refused declarable, Edit.outcome_attempt_declare held declarable⟩

end Site.Ready

end ResultTree
