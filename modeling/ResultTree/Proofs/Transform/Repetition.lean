import ResultTree.Proofs.Transform.Distinctness

namespace ResultTree

/-! A binding that was resolved at a node is resolved there to the same again, and the
document stays as it is. Only where a declaration was made does the second search run in
another scope. It finds that declaration: nothing declared before it on the node has the
URI, and nothing hides what stands on the node itself. -/

namespace Site

variable {site : Site} {present : List Binding} {binding : Binding}

theorem taken?_append (tidy : Document.Tidy present)
    (declarable : Document.Declarable present binding)
    (missing : (site.scope present).taken? binding.uri = none) :
    (site.scope (present ++ [binding])).taken? binding.uri =
      some (site.added present binding) := by
  have notXml : binding.uri ≠ xmlUri := by
    intro same
    rw [Scope.taken?, if_pos same] at missing
    cases missing
  have others : ∀ declaration ∈ site.declared present,
      declaration.binding.uri ≠ binding.uri := by
    intro declaration member
    exact uri_ne_of_missing tidy missing
      (List.mem_of_getElem? (mem_declared_iff.mp member).2)
  have nearest : (site.scope (present ++ [binding])).nearest? binding.nsPrefix =
      some (site.added present binding).handle := by
    have denoted := denoted_scope_of_mem (tidy.declare declarable)
      (@added_mem_declared site present binding)
    rw [show (site.added present binding).binding = binding from rfl, Scope.denoted?,
      if_neg (declarable.notReserved "xml" (by decide))] at denoted
    rw [Scope.nearest?_eq_map_find?, denoted, Option.map_some]
  have unfound : (site.declared present).find? (fun declaration =>
      declaration.binding.uri = binding.uri &&
        (site.scope (present ++ [binding])).nearest? declaration.binding.nsPrefix =
          some declaration.handle) = none := by
    rw [List.find?_eq_none]
    intro declaration member
    simp [others declaration member]
  rw [Scope.taken?, if_neg notXml, show (site.scope (present ++ [binding])).declarations =
    site.declared present ++ site.added present binding :: site.above by
      simp [scope, declared_append], List.find?_append, unfound, Option.none_or]
  exact List.find?_cons_of_pos (by simp [added, nearest])

end Site

namespace Document

variable {document : Document} {out : NodeId} {above : List NodeId} {element : Element}
  {binding : Binding}

theorem Way.scopeAlong_declaring (way : document.Way out (out :: above))
    (held : document.content out = .ok (.element element)) :
    (document.declaring out element binding).scopeAlong (out :: above) =
      Site.scope ⟨out, above.flatMap document.declared⟩
        (element.declarations ++ [binding]) := by
  rw [scopeAlong_eq_scope (content_declaring held)]
  have same : above.flatMap (document.declaring out element binding).declared =
      above.flatMap document.declared := by
    refine List.flatMap_congr fun other member => ?_
    have different : other ≠ out := fun same =>
      (List.nodup_cons.mp way.nodup).1 (same ▸ member)
    rw [declared, declared, nodes_declaring_other different]
  rw [same]

theorem Resolvable.nearestVisible?_declaring (resolvable : document.Resolvable)
    (held : document.content out = .ok (.element element))
    (declarable : Declarable element.declarations binding)
    (missing : document.nearestVisible? out binding.uri = .ok none) :
    (document.declaring out element binding).nearestVisible? out binding.uri =
      .ok (some ⟨⟨out, element.declarations.length⟩, binding⟩) := by
  have later := resolvable.declaring held declarable
  have inside := lt_size_of_content held
  have laterInside : out < (document.declaring out element binding).size := by
    rwa [Document.declaring, size_putElement]
  rcases resolvable.acyclic out with ⟨nodes, way⟩
  rcases way.eq_cons with ⟨above, rfl⟩
  rw [way.nearestVisible? resolvable.linked resolvable.orderly inside,
    scopeAlong_eq_scope held] at missing
  rw [way.declaring.nearestVisible? later.linked later.orderly laterInside,
    way.scopeAlong_declaring held]
  exact congrArg Except.ok
    (Site.taken?_append (resolvable.orderly out element held).tidy declarable
      (Except.ok.inj missing))

theorem Resolvable.namespaceUri?_declaring (resolvable : document.Resolvable)
    (held : document.content out = .ok (.element element))
    (declarable : Declarable element.declarations binding) :
    (document.declaring out element binding).namespaceUri? out =
      document.namespaceUri? out := by
  rcases exists_uri? fun handle own =>
    resolvable.known out element held handle (Element.own_mem_handles own) with
    ⟨uri, denoted⟩
  rw [namespaceUri?_of_element held, namespaceUri?_of_element (content_declaring held),
    denoted]
  exact (change_declaring held declarable).extends.uri? denoted

end Document

namespace AliasTable

variable {table : AliasTable} {document changed : Document} {wanted : Binding}
  {out : NodeId} {answer : Option Handle}

theorem Resolution.eq_of_visible {nearest : Declaration} (something : wanted.uri ≠ "")
    (other : document.namespaceUri? out ≠ .ok (some wanted.uri))
    (visible :
      document.nearestVisible? out (table.target wanted.uri) = .ok (some nearest))
    (resolution : table.Resolution document wanted out answer changed) :
    answer = some nearest.handle ∧ changed = document := by
  cases resolution with
  | empty nothing => exact absurd nothing something
  | own _ held same =>
      refine absurd ?_ other
      rw [Document.namespaceUri?, held]
      exact same
  | found _ _ again =>
      cases visible.symm.trans again
      exact ⟨rfl, rfl⟩
  | declared _ _ missing _ _ => cases visible.symm.trans missing
  | refused _ _ missing _ => cases visible.symm.trans missing

/-- To resolve a binding a second time gives what it gave the first time, and leaves the
document that this left. -/
theorem resolve_resolve (reachable : document.Reachable) (acyclic : document.Acyclic)
    (known : document.AllKnown) (inside : out < document.size) (table : AliasTable)
    (wanted : Binding) :
    ∃ answer changed, (table.resolve wanted out).on document = .ok (.ok answer, changed) ∧
      (table.resolve wanted out).on changed = .ok (.ok answer, changed) := by
  have resolvable := reachable.resolvable acyclic known
  rcases exists_resolution table wanted resolvable inside with
    ⟨answer, changed, result, resolution⟩
  refine ⟨answer, changed, Edit.on_of result, ?_⟩
  cases resolution with
  | @declared element something other missing held declarable =>
      -- The wanted URI is visible now, and the namespace of the node is still another.
      have visible := resolvable.nearestVisible?_declaring held declarable missing
      have still := resolvable.namespaceUri?_declaring held declarable ▸ other
      have stillInside : out <
          (document.declaring out element (table.restate wanted)).size := by
        rwa [Document.declaring, Document.size_putElement]
      rcases exists_resolution table wanted (resolvable.declaring held declarable)
        stillInside with
        ⟨again, left, resultAgain, resolutionAgain⟩
      rcases resolutionAgain.eq_of_visible something still visible with ⟨rfl, rfl⟩
      exact Edit.on_of resultAgain
  | _ => exact Edit.on_of result

theorem resolve_resolve_nested :
    ∃ document changed, Document.after nested = some document ∧
      (swapped.resolve ⟨some "q", "urn:b"⟩ 2).on document =
        .ok (.ok (some ⟨2, 1⟩), changed) ∧
      (swapped.resolve ⟨some "q", "urn:b"⟩ 2).on changed =
        .ok (.ok (some ⟨2, 1⟩), changed) ∧
      document.declarations 2 = .ok [⟨some "p", "urn:b"⟩] ∧
      changed.declarations 2 = .ok [⟨some "p", "urn:b"⟩, ⟨some "q", "urn:a"⟩] := by
  have made : ∃ document, Document.after nested = some document := ⟨_, rfl⟩
  rcases made with ⟨document, made⟩
  have reachable := Document.reachable_of_after made
  have ready : document.Acyclic ∧ document.AllKnown ∧ 2 < document.size := by
    cases made
    exact ⟨Document.acyclic_of_climb (by decide), by decide, by decide⟩
  rcases ready with ⟨acyclic, known, inside⟩
  rcases resolve_resolve reachable acyclic known inside swapped ⟨some "q", "urn:b"⟩ with
    ⟨answer, changed, result, again⟩
  have declared : answer = some ⟨2, 1⟩ ∧
      document.declarations 2 = .ok [⟨some "p", "urn:b"⟩] ∧
      changed.declarations 2 = .ok [⟨some "p", "urn:b"⟩, ⟨some "q", "urn:a"⟩] := by
    cases made
    cases result
    decide
  rcases declared with ⟨rfl, before, after⟩
  exact ⟨document, changed, made, result, again, before, after⟩

end AliasTable

end ResultTree
