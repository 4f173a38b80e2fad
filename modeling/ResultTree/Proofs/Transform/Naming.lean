import ResultTree.Proofs.Transform.Correspondence
import ResultTree.Proofs.Transform.Shadowing

namespace ResultTree

/-! The names of all copies that a run makes mean what they say, but for those that an
attribute hides. -/

theorem Written.handles_element (written : Written) (name : String) :
    (written.element name).handles = written.names.map Declaration.handle := by
  have attributes : (written.attributes.map Named.toAttribute).filterMap Attribute.ns =
      (written.attributes.filterMap Named.ns).map Declaration.handle := by
    rw [List.filterMap_map, List.map_filterMap]
    rfl
  simp only [Element.handles, element, names, attributes, List.map_append]
  cases written.own <;> rfl

namespace AliasTable

/-- `element`, the copy of `held` at a node, declares the prefix of a binding for an
attribute, while the binding is declared elsewhere. -/
def Hides (table : AliasTable) (source : Document) (held : Element) (copy : NodeId)
    (element : Element) (handle : Handle) (binding : Binding) : Prop :=
  handle.owner ≠ copy ∧ ∃ wanted, source.Wants held wanted ∧
    wanted.nsPrefix = binding.nsPrefix ∧ table.restate wanted ∈ element.declarations

/-- A name of `element`, the copy of `held` at a node, means what its prefix denotes there
unless the copy hides it. -/
def DenotesUnlessHidden (table : AliasTable) (source after : Document) (held : Element)
    (copy : NodeId) (element : Element) : Prop :=
  ∀ handle ∈ element.handles, ∃ binding, after.binding handle = .ok binding ∧
    (after.findPrefix copy binding.nsPrefix = .ok (some handle) ↔
      ¬ table.Hides source held copy element handle binding)

variable {table : AliasTable} {source after : Document} {original copy : NodeId}
  {element : Element}

theorem StandsFor.denotesUnlessHidden
    (stands : table.StandsFor source after original copy) (linked : after.Linked)
    (orderly : after.AllOrderly) (sourceOrderly : source.AllOrderly)
    (held : after.content copy = .ok (.element element)) :
    ∃ holder, source.content original = .ok (.element holder) ∧
      table.DenotesUnlessHidden source after holder copy element := by
  rcases stands with ⟨node, copied, above, found, copyFound, way, content⟩
  have shape : copied.content = .element element := by
    rw [Document.content_of copyFound] at held
    exact Except.ok.inj held
  have originalHeld := Document.content_of found
  rw [shape] at content
  generalize node.content = original at originalHeld content
  cases content with
  | @element holder written admits copies =>
      refine ⟨holder, originalHeld, fun handle member => ?_⟩
      rw [Written.handles_element, List.mem_map] at member
      rcases member with ⟨declaration, named, rfl⟩
      have inside := Document.lt_size_of_node copyFound
      have sound := way.sound linked orderly held
      have scope := @Document.scopeAlong_eq_scope _ _ above _ held
      have known := (admits.places declaration named).binding linked held
      refine ⟨declaration.binding, known, ?_⟩
      have tidy := (sourceOrderly _ _ originalHeld).tidy
      refine Iff.trans ?_ (copies.denoted_iff sound tidy admits named)
      rw [way.findPrefix linked inside, scope]
      constructor
      · intro answered
        rcases Option.map_eq_some_iff.mp (Except.ok.inj answered) with
          ⟨other, denoted, same⟩
        have otherKnown := (Site.places_of_denoted denoted).binding linked held
        rw [same, known] at otherKnown
        have sameDeclaration : other = declaration := by
          cases other
          cases declaration
          cases same
          cases otherKnown
          rfl
        exact denoted.trans (congrArg some sameDeclaration)
      · intro denoted
        exact congrArg (fun found => Except.ok (found.map Declaration.handle)) denoted

end AliasTable

namespace Run

variable {run : Run} {node parent : NodeId}

/-- After a node is copied, or a node with all that is below it, the handle of a name of a
copy is what its prefix denotes there, unless the copy hides it for an attribute. -/
theorem findPrefix_copy_iff (sourceReachable : run.source.Reachable)
    (consistent : run.source.Consistent) (attached : run.source.Attached node)
    (resultReachable : run.result.Reachable) (below : run.result.Attached parent)
    (hosts : run.result.Hosts parent) :
    (∃ answer after, run.copyNode node parent = .ok (.ok answer, after) ∧
      ∀ (copy : Nat) (element : Element), run.result.size ≤ copy →
        after.result.content copy = .ok (.element element) →
        copy = answer ∧ ∃ held, run.source.content node = .ok (.element held) ∧
          run.stylesheet.aliases.DenotesUnlessHidden run.source after.result held copy
            element) ∧
    ∃ answer after, run.copyTree node parent = .ok (.ok answer, after) ∧
      ∀ (copy : Nat) (element : Element), run.result.size ≤ copy →
        after.result.content copy = .ok (.element element) →
        ∃ original held, run.source.Passes original node ∧
          run.source.IsCopy run.result after.result node answer original copy ∧
          run.source.content original = .ok (.element held) ∧
          run.stylesheet.aliases.DenotesUnlessHidden run.source after.result held copy
            element := by
  have linked := sourceReachable.linked
  have orderly := sourceReachable.orderly
  have resultLinked := resultReachable.linked
  have resultOrderly := resultReachable.orderly
  rcases below.way resultLinked with ⟨passed, way⟩
  constructor
  case left =>
    rcases AliasTable.copyNode_adds run.stylesheet.aliases linked orderly consistent
      attached resultLinked hosts way with ⟨answer, result, outcome, changes, adds⟩
    refine ⟨answer, _, edit_of outcome, fun copy element new held => ?_⟩
    rcases adds new (Document.lt_size_of_content held) with ⟨same, stands⟩
    exact ⟨same, stands.denotesUnlessHidden (changes.linked resultLinked)
      (changes.holds resultOrderly Document.AllOrderly.kept) orderly held⟩
  case right =>
    rcases AliasTable.grafts_copyTree run.stylesheet.aliases linked orderly consistent
      attached resultLinked hosts way with ⟨result, outcome, graft⟩
    refine ⟨_, _, edit_of outcome, fun copy element new held => ?_⟩
    rcases graft.exists_original linked attached hosts.inside new
      (Document.lt_size_of_content held) with ⟨original, passes, isCopy, stands⟩
    rcases stands.denotesUnlessHidden (graft.changes.linked resultLinked)
      (graft.changes.holds resultOrderly Document.AllOrderly.kept) orderly held
      with ⟨holder, originalHeld, names⟩
    exact ⟨original, holder, passes, isCopy, originalHeld, names⟩

/-! An element in one namespace with an attribute in another, both declared above it. It
is copied below an element where the prefix of the second denotes the first. -/

def twoNamespaces : List Operation :=
  [.appendElement 0 "root", .declare 1 (some "p") "urn:x", .declare 1 (some "a") "urn:y",
    .appendElement 1 "e", .setNamespace 2 (some ⟨1, 0⟩),
    .setAttribute 2 "attr" (some ⟨1, 1⟩) "v"]

def otherPrefix : List Operation :=
  [.appendElement 0 "host", .declare 1 (some "a") "urn:x"]

theorem consistent_of_twoNamespaces {source result : Document}
    (sourceMade : Document.after twoNamespaces = some source)
    (resultMade : Document.after otherPrefix = some result) :
    source.Consistent ∧ source.Attached 2 ∧ result.Consistent ∧ result.Acyclic ∧
      result.Attached 1 ∧ result.Hosts 1 := by
  cases sourceMade
  cases resultMade
  exact ⟨Document.consistent_of_all (by decide), .tail (.single rfl) rfl,
    Document.consistent_of_all (by decide), Document.acyclic_of_climb (by decide),
    .single rfl, ⟨_, rfl, trivial⟩⟩

theorem findPrefix_copy_iff_twoNamespaces :
    ∃ source result, Document.after twoNamespaces = some source ∧
      Document.after otherPrefix = some result ∧
      ∃ answer after,
        copyNode { stylesheet := {}, source, result } 2 1 = .ok (.ok answer, after) ∧
        ∀ (copy : Nat) (element : Element), result.size ≤ copy →
          after.result.content copy = .ok (.element element) →
          copy = answer ∧ ∃ held, source.content 2 = .ok (.element held) ∧
            AliasTable.empty.DenotesUnlessHidden source after.result held copy
              element := by
  have made : ∃ source result, Document.after twoNamespaces = some source ∧
      Document.after otherPrefix = some result := ⟨_, _, rfl, rfl⟩
  rcases made with ⟨source, result, sourceMade, resultMade⟩
  refine ⟨source, result, sourceMade, resultMade, ?_⟩
  rcases consistent_of_twoNamespaces sourceMade resultMade with
    ⟨consistent, attached, _, _, below, hosts⟩
  exact (findPrefix_copy_iff (Document.reachable_of_after sourceMade) consistent attached
    (Document.reachable_of_after resultMade) below hosts).1

/-- The attribute declares its prefix on the copy and hides the name of the element. -/
theorem hidden_of_twoNamespaces :
    ∃ source result, Document.after twoNamespaces = some source ∧
      Document.after otherPrefix = some result ∧ source.Consistent ∧ source.Attached 2 ∧
      result.Consistent ∧ result.Acyclic ∧ result.Attached 1 ∧ result.Hosts 1 ∧
      ∃ after, copyNode { stylesheet := {}, source, result } 2 1 = .ok (.ok 2, after) ∧
        after.result.ownNamespace? 2 = .ok (some ⟨1, 0⟩) ∧
        after.result.binding ⟨1, 0⟩ = .ok ⟨some "a", "urn:x"⟩ ∧
        after.result.findPrefix 2 (some "a") = .ok (some ⟨2, 0⟩) := by
  refine ⟨_, _, rfl, rfl, ?_⟩
  rcases consistent_of_twoNamespaces rfl rfl with
    ⟨consistent, attached, resultConsistent, acyclic, below, hosts⟩
  exact ⟨consistent, attached, resultConsistent, acyclic, below, hosts, _, rfl, rfl,
    rfl, rfl⟩

end Run

end ResultTree
