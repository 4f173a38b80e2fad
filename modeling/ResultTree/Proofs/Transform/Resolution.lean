import ResultTree.Proofs.Document.Handles
import ResultTree.Proofs.Document.Searches
import ResultTree.Proofs.Transform.Page

namespace ResultTree

/-! What the search for a binding of the result comes to, at any node of any document.
The cases are tried in a fixed order. All but one of them leave the document alone, and
the one that does not declares at the end of an element. -/

namespace Document

def nearestVisible? (document : Document) (id : NodeId) (uri : String) :
    Reading (Option Declaration) := do
  if uri = xmlUri then return some .xml
  else return (← document.inScope id).find? (·.binding.uri = uri)

/-- Bindings can be resolved at every node: the document is in order, all ways up end,
and all handles denote something. -/
structure Resolvable (document : Document) : Prop where
  linked : document.Linked
  orderly : document.AllOrderly
  acyclic : document.Acyclic
  known : document.AllKnown

def declaring (document : Document) (id : NodeId) (element : Element)
    (binding : Binding) :
    Document :=
  document.putElement id { element with declarations :=
    element.declarations ++ [binding] }

end Document

/-- What stands in for the binding `wanted` at a node, and the document that this
leaves. -/
inductive AliasTable.Resolution (table : AliasTable) (document : Document)
    (wanted : Binding) (out : NodeId) : Option Handle → Document → Prop
  | empty (nothing : wanted.uri = "") : Resolution table document wanted out none document
  | own {handle : Handle} (something : wanted.uri ≠ "")
      (held : document.ownNamespace? out = .ok (some handle))
      (same : document.uri? (some handle) = .ok (some wanted.uri)) :
      Resolution table document wanted out (some handle) document
  | found {nearest : Declaration} (something : wanted.uri ≠ "")
      (other : document.namespaceUri? out ≠ .ok (some wanted.uri))
      (visible :
        document.nearestVisible? out (table.target wanted.uri) = .ok (some nearest)) :
      Resolution table document wanted out (some nearest.handle) document
  | declared {element : Element} (something : wanted.uri ≠ "")
      (other : document.namespaceUri? out ≠ .ok (some wanted.uri))
      (missing : document.nearestVisible? out (table.target wanted.uri) = .ok none)
      (held : document.content out = .ok (.element element))
      (declarable : Document.Declarable element.declarations (table.restate wanted)) :
      Resolution table document wanted out (some ⟨out, element.declarations.length⟩)
        (document.declaring out element (table.restate wanted))
  | refused (something : wanted.uri ≠ "")
      (other : document.namespaceUri? out ≠ .ok (some wanted.uri))
      (missing : document.nearestVisible? out (table.target wanted.uri) = .ok none)
      (undeclarable : ∀ element, document.content out = .ok (.element element) →
        ¬ Document.Declarable element.declarations (table.restate wanted)) :
      Resolution table document wanted out none document

namespace Document

variable {document : Document} {out : NodeId} {nodes : List NodeId} {element : Element}
  {binding : Binding}

theorem Reachable.resolvable (reachable : document.Reachable) (acyclic : document.Acyclic)
    (known : document.AllKnown) : document.Resolvable :=
  ⟨reachable.linked, reachable.orderly, acyclic, known⟩

/-! ## What is nearest -/

theorem Way.nearestVisible? (way : document.Way out nodes) (linked : document.Linked)
    (orderly : document.AllOrderly) (inside : out < document.size) (uri : String) :
    document.nearestVisible? out uri = .ok ((document.scopeAlong nodes).taken? uri) := by
  unfold Document.nearestVisible? Scope.taken?
  split
  · rfl
  · rw [way.inScope linked inside, Reading.ok_bind,
      (coherent_scopeAlong linked orderly nodes).find?_visible_uri]
    rfl

theorem Resolvable.findPrefix_nearest (resolvable : document.Resolvable)
    (inside : out < document.size) {uri : String} {nearest : Declaration}
    (visible : document.nearestVisible? out uri = .ok (some nearest)) :
    document.binding nearest.handle = .ok nearest.binding ∧ nearest.binding.uri = uri ∧
      document.findPrefix out nearest.binding.nsPrefix = .ok (some nearest.handle) := by
  rcases resolvable.acyclic out with ⟨nodes, way⟩
  rw [way.nearestVisible? resolvable.linked resolvable.orderly inside] at visible
  have taken := Except.ok.inj visible
  have coherent := coherent_scopeAlong resolvable.linked resolvable.orderly nodes
  have denoted := coherent.denoted_of_taken taken
  refine ⟨resolvable.linked.binding_of_denoted denoted, Scope.uri_of_taken taken, ?_⟩
  rw [way.findPrefix resolvable.linked inside, denoted]
  rfl

theorem Resolvable.uri_ne_of_missing (resolvable : document.Resolvable) {uri : String}
    (missing : document.nearestVisible? out uri = .ok none)
    (held : document.content out = .ok (.element element)) {declared : Binding}
    (member : declared ∈ element.declarations) : declared.uri ≠ uri := by
  rcases resolvable.acyclic out with ⟨nodes, way⟩
  rw [way.nearestVisible? resolvable.linked resolvable.orderly (lt_size_of_content held)]
    at missing
  rcases way.eq_cons with ⟨above, rfl⟩
  rw [scopeAlong_eq_scope held] at missing
  exact Site.uri_ne_of_missing (resolvable.orderly out element held).tidy
    (Except.ok.inj missing) member

/-! ## Declaring -/

theorem change_declaring (held : document.content out = .ok (.element element))
    (declarable : Declarable element.declarations binding) :
    Change document (document.declaring out element binding) :=
  .touch (.declaration held declarable)

theorem content_declaring (held : document.content out = .ok (.element element)) :
    (document.declaring out element binding).content out =
      .ok (.element { element with declarations := element.declarations ++ [binding] }) :=
  content_putElement _ held

theorem nodes_declaring_other {id : NodeId} (other : id ≠ out) :
    (document.declaring out element binding).nodes[id]? = document.nodes[id]? := by
  rw [declaring, nodes_putElement]
  simp [other]

theorem Way.declaring (way : document.Way out nodes) {id : NodeId} :
    (document.declaring id element binding).Way out nodes :=
  way.of_sameLinks fun _ _ => parentLink_putElement _ _

theorem content_declaring_cases {id : NodeId} {later : Element}
    (held : document.content out = .ok (.element element))
    (laterHeld :
      (document.declaring out element binding).content id = .ok (.element later)) :
    id = out ∧
    later = { element with declarations := element.declarations ++ [binding] } ∨
      document.content id = .ok (.element later) := by
  by_cases here : id = out
  · subst here
    rw [content_declaring held] at laterHeld
    cases laterHeld
    exact .inl ⟨rfl, rfl⟩
  · rw [declaring, content_putElement_other here] at laterHeld
    exact .inr laterHeld

theorem Resolvable.declaring (resolvable : document.Resolvable)
    (held : document.content out = .ok (.element element))
    (declarable : Declarable element.declarations binding) :
    (document.declaring out element binding).Resolvable where
  linked := Linked.kept (change_declaring held declarable) resolvable.linked
  orderly := AllOrderly.kept (change_declaring held declarable) resolvable.orderly
  acyclic := by
    intro id
    rcases resolvable.acyclic id with ⟨nodes, way⟩
    exact ⟨nodes, way.declaring⟩
  known := by
    intro id later laterHeld handle member
    have before : ∃ known, document.binding handle = .ok known := by
      rcases content_declaring_cases held laterHeld with ⟨_, rfl⟩ | same
      · exact resolvable.known out element held handle member
      · exact resolvable.known id later same handle member
    rcases before with ⟨known, denoted⟩
    exact ⟨known, (change_declaring held declarable).extends handle known denoted⟩

theorem Resolvable.findPrefix_declaring (resolvable : document.Resolvable)
    (held : document.content out = .ok (.element element))
    (declarable : Declarable element.declarations binding) :
    (document.declaring out element binding).binding ⟨out, element.declarations.length⟩ =
        .ok binding ∧
      (document.declaring out element binding).findPrefix out binding.nsPrefix =
        .ok (some ⟨out, element.declarations.length⟩) := by
  have linked := (resolvable.declaring held declarable).linked
  have laterHeld := @content_declaring document out element binding held
  rcases content_eq_ok_iff.mp laterHeld with ⟨node, found, shape⟩
  rcases resolvable.acyclic out with ⟨nodes, way⟩
  rcases way.eq_cons with ⟨above, rfl⟩
  have tidy := ((resolvable.declaring held declarable).orderly out _ laterHeld).tidy
  constructor
  · refine binding_eq_ok_iff.mpr ⟨node, found, ?_⟩
    simp [shape, Content.declarations]
  · have denoted := Site.denoted_scope_of_mem tidy
      (@Site.added_mem_declared ⟨out, above.flatMap (document.declaring out element
        binding).declared⟩ element.declarations binding)
    rw [way.declaring.findPrefix linked (lt_size_of_node found),
      scopeAlong_eq_scope laterHeld]
    exact congrArg (fun found => Except.ok (found.map Declaration.handle)) denoted

end Document

namespace AliasTable

variable {table : AliasTable} {document : Document} {wanted : Binding} {out : NodeId}

/-! ## The search -/

theorem exists_resolution (table : AliasTable) (wanted : Binding)
    (resolvable : document.Resolvable) (inside : out < document.size) :
    ∃ answer changed,
      Edit.outcome (table.resolve wanted out) document = (.ok (.ok answer), changed) ∧
        table.Resolution document wanted out answer changed := by
  by_cases nothing : wanted.uri = ""
  · exact ⟨none, document, by simp [resolve, nothing], .empty nothing⟩
  rcases resolvable.known.exists_namespaceUri? inside with ⟨uri, uriKnown⟩
  rcases Reading.bind_eq_ok_iff.mp uriKnown with ⟨own, ownKnown, denoted⟩
  rw [resolve, if_neg nothing, Edit.bind_get, Edit.bind_read_of ownKnown,
    Edit.bind_read_of denoted]
  by_cases same : uri = some wanted.uri
  -- The namespace of the node itself is taken as it is, without a look at the scope.
  · subst same
    rw [if_pos rfl]
    cases own with
    | none => cases denoted
    | some handle => exact ⟨some handle, document, rfl, .own nothing ownKnown denoted⟩
  have other : document.namespaceUri? out ≠ .ok (some wanted.uri) := by
    rw [uriKnown]
    exact fun equal => same (Except.ok.inj equal)
  rcases resolvable.acyclic out with ⟨nodes, way⟩
  have nearest := way.nearestVisible? resolvable.linked resolvable.orderly inside
    (table.target wanted.uri)
  rw [if_neg same, Edit.bind_read_of (way.findUri resolvable.linked inside _)]
  cases taken : (document.scopeAlong nodes).taken? (table.target wanted.uri) with
  | some declaration =>
      rw [taken] at nearest
      exact ⟨some declaration.handle, document, rfl, .found nothing other nearest⟩
  | none =>
      -- Nothing is nearest, so it is left to what the node is and declares.
      rw [taken] at nearest
      rcases Document.exists_node_iff.mpr inside with ⟨node, found⟩
      simp only [Option.map_none]
      rw [Edit.bind_read_of (Document.isElement_of found)]
      cases shape : node.content.element? with
      | none =>
          refine ⟨none, document, rfl,
            .refused nothing other nearest fun element held => ?_⟩
          rcases Document.content_eq_element_iff.mp held with ⟨_, again, isElement⟩
          cases found.symm.trans again
          cases shape.symm.trans isElement
      | some element =>
          have held := Document.content_eq_element_iff.mpr ⟨node, found, shape⟩
          simp only [Option.isSome_some, if_true]
          by_cases declarable :
            Document.Declarable element.declarations (table.restate wanted)
          · refine ⟨_, _, ?_, .declared nothing other nearest held declarable⟩
            rw [Edit.outcome_attempt, Edit.outcome_declare_of held declarable]
            rfl
          · refine ⟨none, document, Edit.outcome_attempt_declare held declarable,
              .refused nothing other nearest fun again againHeld => ?_⟩
            cases held.symm.trans againHeld
            exact declarable

/-- What stands in for a binding, and what becomes of the document: unless the node has
the wanted namespace itself, the answer has the URI that the aliases make of it and is
what its prefix denotes there. No other node is touched, and no handle loses its
meaning. -/
structure Resolved (table : AliasTable) (document : Document) (wanted : Binding)
    (out : NodeId) (answer : Option Handle) (changed : Document) : Prop where
  resolution : table.Resolution document wanted out answer changed
  named : document.namespaceUri? out ≠ .ok (some wanted.uri) →
    ∀ handle, answer = some handle →
    ∃ binding, changed.binding handle = .ok binding ∧
      binding.uri = table.target wanted.uri ∧
      changed.findPrefix out binding.nsPrefix = .ok (some handle)
  others : ∀ id ≠ out, changed.nodes[id]? = document.nodes[id]?
  handles : changed.Extends document

theorem resolved_resolve (reachable : document.Reachable) (acyclic : document.Acyclic)
    (known : document.AllKnown) (inside : out < document.size) (table : AliasTable)
    (wanted : Binding) :
    ∃ answer changed, (table.resolve wanted out).on document = .ok (.ok answer, changed) ∧
      table.Resolved document wanted out answer changed := by
  have resolvable := reachable.resolvable acyclic known
  rcases exists_resolution table wanted resolvable inside with
    ⟨answer, changed, result, resolution⟩
  refine ⟨answer, changed, Edit.on_of result, resolution, ?named, ?others, ?handles⟩
  case named =>
    intro other handle answered
    cases resolution with
    | empty => cases answered
    | own _ held same =>
        refine absurd ?_ other
        rw [Document.namespaceUri?, held]
        exact same
    | found _ _ visible =>
        cases answered
        exact ⟨_, resolvable.findPrefix_nearest inside visible⟩
    | declared _ _ _ held declarable =>
        cases answered
        rcases resolvable.findPrefix_declaring held declarable with ⟨denoted, found⟩
        exact ⟨_, denoted, rfl, found⟩
    | refused => cases answered
  case others =>
    intro id other
    cases resolution with
    | declared => exact Document.nodes_declaring_other other
    | _ => rfl
  case handles =>
    cases resolution with
    | declared _ _ _ held declarable =>
        exact (Document.change_declaring held declarable).extends
    | _ => exact fun _ _ denoted => denoted

def renamed : AliasTable := empty.declare "urn:s" ⟨"urn:c", 1⟩

theorem resolved_resolve_hiddenPrefix :
    ∃ document changed, Document.after Document.hiddenPrefix = some document ∧
      (renamed.resolve ⟨some "q", "urn:s"⟩ 2).on document =
        .ok (.ok (some ⟨2, 1⟩), changed) ∧
      renamed.Resolved document ⟨some "q", "urn:s"⟩ 2 (some ⟨2, 1⟩) changed := by
  have made : ∃ document, Document.after Document.hiddenPrefix = some document := ⟨_, rfl⟩
  rcases made with ⟨document, made⟩
  have reachable := Document.reachable_of_after made
  have ready : document.Acyclic ∧ document.AllKnown ∧ 2 < document.size := by
    cases made
    exact ⟨Document.acyclic_of_climb (by decide), by decide, by decide⟩
  rcases ready with ⟨acyclic, known, inside⟩
  rcases resolved_resolve reachable acyclic known inside renamed ⟨some "q", "urn:s"⟩ with
    ⟨answer, changed, result, resolved⟩
  have answered : answer = some ⟨2, 1⟩ := by
    cases made
    cases result
    rfl
  subst answered
  exact ⟨document, changed, made, result, resolved⟩

end AliasTable

end ResultTree
