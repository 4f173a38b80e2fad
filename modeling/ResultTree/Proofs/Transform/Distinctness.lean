import ResultTree.Proofs.Transform.Resolution

namespace ResultTree

/-! No element comes to declare a URI twice. A declaration on an element is never hidden
at the element itself, so whatever is resolved elsewhere and under whatever prefix, a URI
that is declared on an element is found there. -/

def Document.DistinctUris (document : Document) : Prop :=
  ∀ (id : NodeId) (element : Element), document.content id = .ok (.element element) →
    (element.declarations.map Binding.uri).Nodup

instance (document : Document) : Decidable document.DistinctUris :=
  decidable_of_iff
    (∀ node ∈ document.nodes, ∀ element ∈ node.content.element?,
      (element.declarations.map Binding.uri).Nodup)
    Document.forall_element_iff.symm

namespace AliasTable

def resolveNext (table : AliasTable) (document : Document) (wish : Binding × NodeId) :
    Reading Document :=
  Prod.snd <$> (table.resolve wish.1 wish.2).on document

def resolveAll (table : AliasTable) (document : Document)
    (wishes : List (Binding × NodeId)) :
    Reading Document :=
  wishes.foldlM table.resolveNext document

variable {table : AliasTable} {document changed : Document} {wanted : Binding}
  {out : NodeId} {answer : Option Handle}

/-! ## One binding -/

theorem Resolution.resolvable
    (resolution : table.Resolution document wanted out answer changed)
    (resolvable : document.Resolvable) : changed.Resolvable := by
  cases resolution with
  | declared _ _ _ held declarable => exact resolvable.declaring held declarable
  | _ => exact resolvable

theorem Resolution.size_eq
    (resolution : table.Resolution document wanted out answer changed) :
    changed.size = document.size := by
  cases resolution with
  | declared => exact Document.size_putElement _ _
  | _ => rfl

theorem Resolution.distinctUris
    (resolution : table.Resolution document wanted out answer changed)
    (resolvable : document.Resolvable) (distinct : document.DistinctUris) :
    changed.DistinctUris := by
  cases resolution with
  | declared _ _ missing held _ =>
      intro id later laterHeld
      rcases Document.content_declaring_cases held laterHeld with ⟨_, rfl⟩ | before
      · rw [List.map_append, List.map_singleton]
        refine (distinct out _ held).append (List.nodup_singleton _) ?_
        refine List.disjoint_singleton.mpr fun declared => ?_
        rcases List.mem_map.mp declared with ⟨binding, member, same⟩
        exact resolvable.uri_ne_of_missing missing held member same
      · exact distinct id later before
  | _ => exact distinct

/-! ## All of them -/

theorem distinctUris_resolveAll {wishes : List (Binding × NodeId)}
    (reachable : document.Reachable) (acyclic : document.Acyclic)
    (known : document.AllKnown) (distinct : document.DistinctUris)
    (inside : ∀ wish ∈ wishes, wish.2 < document.size) (table : AliasTable) :
    ∃ changed, table.resolveAll document wishes = .ok changed ∧ changed.DistinctUris := by
  have resolved : ∃ changed, table.resolveAll document wishes = .ok changed ∧
      changed.Resolvable ∧ changed.size = document.size ∧ changed.DistinctUris := by
    refine Reading.exists_foldlM (fun before kept wish member => ?_)
      ⟨reachable.resolvable acyclic known, rfl, distinct⟩
    rcases kept with ⟨resolvable, size, distinct⟩
    rcases exists_resolution table wish.1 resolvable (size ▸ inside wish member) with
      ⟨answer, after, result, resolution⟩
    refine ⟨after, ?_, resolution.resolvable resolvable, resolution.size_eq.trans size,
      resolution.distinctUris resolvable distinct⟩
    rw [resolveNext, Edit.on_of result, Reading.map_ok]
  rcases resolved with ⟨changed, answered, _, _, distinct⟩
  exact ⟨changed, answered, distinct⟩

def nested : List Operation :=
  [.appendElement 0 "outer", .declare 1 (some "p") "urn:a", .appendElement 1 "inner",
    .declare 2 (some "p") "urn:b", .newText "loose"]

def swapped : AliasTable :=
  (empty.declare "urn:a" ⟨"urn:b", 1⟩).declare "urn:b" ⟨"urn:a", 1⟩

def wishes : List (Binding × NodeId) :=
  [(⟨some "q", "urn:b"⟩, 2), (⟨some "r", "urn:b"⟩, 2), (⟨some "q", "urn:a"⟩, 1),
    (⟨some "p", "urn:c"⟩, 2), (⟨some "s", "urn:c"⟩, 1), (⟨some "t", "urn:c"⟩, 2),
    (⟨some "q", "urn:a"⟩, 3), (⟨none, "urn:c"⟩, 0), (⟨some "xml", "urn:d"⟩, 1)]

theorem distinctUris_resolveAll_nested :
    ∃ document changed, Document.after nested = some document ∧ document.DistinctUris ∧
      swapped.resolveAll document wishes = .ok changed ∧ changed.DistinctUris ∧
      changed.declarations 1 =
        .ok [⟨some "p", "urn:a"⟩, ⟨some "q", "urn:b"⟩, ⟨some "s", "urn:c"⟩] ∧
      changed.declarations 2 = .ok [⟨some "p", "urn:b"⟩, ⟨some "q", "urn:a"⟩] := by
  have made : ∃ document, Document.after nested = some document := ⟨_, rfl⟩
  rcases made with ⟨document, made⟩
  have reachable := Document.reachable_of_after made
  have ready : document.Acyclic ∧ document.AllKnown ∧ document.DistinctUris ∧
      ∀ wish ∈ wishes, wish.2 < document.size := by
    cases made
    exact ⟨Document.acyclic_of_climb (by decide), by decide, by decide, by decide⟩
  rcases ready with ⟨acyclic, known, distinct, inside⟩
  rcases distinctUris_resolveAll reachable acyclic known distinct inside swapped with
    ⟨changed, answered, changedDistinct⟩
  have declared : changed.declarations 1 =
        .ok [⟨some "p", "urn:a"⟩, ⟨some "q", "urn:b"⟩, ⟨some "s", "urn:c"⟩] ∧
      changed.declarations 2 = .ok [⟨some "p", "urn:b"⟩, ⟨some "q", "urn:a"⟩] := by
    cases made
    cases answered
    decide
  exact ⟨document, changed, made, distinct, answered, changedDistinct, declared⟩

end AliasTable

end ResultTree
