import ResultTree.Proofs.Transform.Environment

namespace ResultTree

/-! What a copy declares. The declarations of the element are cloned while its copy
declares nothing yet. No element declares a prefix twice or a reserved one, so the copy
can take all of them, and what its names need is declared after them. -/

namespace AliasTable

variable {table : AliasTable} {source : Document} {site : Site} {present : List Binding}

theorem prefix_undeclareDefault (site : Site) (present : List Binding) :
    present <+: site.undeclareDefault present := by
  unfold Site.undeclareDefault
  split
  · exact List.prefix_refl _
  · split
    · exact List.prefix_refl _
    · exact List.prefix_append _ _

theorem Writes.longer {attributes : List Attribute} {written last : Written}
    (writes : table.Writes source site attributes written last) :
    written.declarations <+: last.declarations := by
  induction writes with
  | done _ => exact List.prefix_refl _
  | next named _ induction =>
      have longer := named.longer fun resolved => resolved.longer
      exact longer.trans induction

theorem Copies.cloned_prefix {held : Element} {written : Written}
    (copies : table.Copies source site held written) :
    table.cloned held.declarations <+: written.declarations := by
  cases copies with
  | @copy own declarations _ named writes =>
      have longer := named.longer fun resolved => resolved.longer
      refine longer.trans (List.IsPrefix.trans ?_ writes.longer)
      by_cases unnamed : own = none
      · simpa [unnamed] using prefix_undeclareDefault site declarations
      · simp [unnamed]

open Document

theorem outcome_copyDeclarations_of_new (table : AliasTable) {document : Document}
    {copy : NodeId} {name : String} {bindings : List Binding}
    (new : document.content copy = .ok (.element { name })) (tidy : Tidy bindings) :
    Edit.outcome (table.copyDeclarations copy bindings) document =
      (.ok (.ok ((List.range (table.cloned bindings).length).map (Handle.mk copy))),
        document.putElement copy { name, declarations := table.cloned bindings }) := by
  have all : AllDeclarable [] (bindings.filter (·.uri ≠ transformUri)) :=
    Tidy.allDeclarable table (tidy.cloned table)
  have declared : ∃ taken,
      Longest (AllDeclarable []) (bindings.filter (·.uri ≠ transformUri)) taken ∧ _ :=
    table.outcome_declareAll_of_element new
  rcases declared with ⟨taken, longest, result⟩
  rw [longest.eq_self all] at result
  simpa [copyDeclarations, cloned, List.range_eq_range'] using result

end AliasTable

namespace Run

open Document

variable {run : Run} {node parent : NodeId}

/-- A copied element has first of all the declarations of the original, through the
aliases and without those of the transformation namespace. Cloning them, right after the
copy was appended, gives a handle for each. -/
theorem declarations_copyNode {held : Element} (sourceReachable : run.source.Reachable)
    (known : run.source.AllKnown) (holds : run.source.content node = .ok (.element held))
    (resultReachable : run.result.Reachable) (acyclic : run.result.Acyclic)
    (hosts : run.result.Hosts parent) :
    ∃ started begun result declarations,
      (Edit.appendElement parent held.name).on run.result =
        .ok (.ok run.result.size, started) ∧
      (run.stylesheet.aliases.copyDeclarations run.result.size
          held.declarations).on started =
        .ok (.ok
          ((List.range (held.declarations.filter (·.uri ≠ transformUri)).length).map
            (Handle.mk run.result.size)), begun) ∧
      begun.declarations run.result.size =
        .ok (run.stylesheet.aliases.cloned held.declarations) ∧
      run.copyNode node parent = .ok (.ok run.result.size, { run with result }) ∧
      result.declarations run.result.size = .ok declarations ∧
      run.stylesheet.aliases.cloned held.declarations <+: declarations := by
  have orderly := sourceReachable.orderly node held holds
  rcases acyclic parent with ⟨nodes, way⟩
  have appended : Edit.outcome (Edit.appendElement parent held.name) run.result =
      (.ok (.ok run.result.size),
        run.result.appended parent (.element { name := held.name })) :=
    hosts.outcome_append _
  have new : (run.result.appended parent (.element { name := held.name })).content
      run.result.size = .ok (.element { name := held.name }) :=
    content_of nodes_appended_new
  have cloned := run.stylesheet.aliases.outcome_copyDeclarations_of_new new orderly.tidy
  rcases AliasTable.outcome_copyElement run.stylesheet.aliases resultReachable.linked
    hosts way orderly (known node held holds) with ⟨written, _, copies, result⟩
  have copied :
      Edit.outcome (run.stylesheet.aliases.copyNode run.source node parent) run.result =
        (.ok (.ok run.result.size),
          run.result.appended parent (.element (written.element held.name))) := by
    rw [AliasTable.copyNode, Edit.bind_read_of holds]
    exact result
  have shown := Edit.on_of cloned
  rw [AliasTable.cloned, List.length_map] at shown
  refine ⟨_, _, _, written.declarations, Edit.on_of appended, shown, ?_,
    edit_of copied, ?_, copies.cloned_prefix⟩
  · exact declarations_of_element (content_putElement _ new)
  · exact declarations_of_element (content_of nodes_appended_new)

/-! An element that declares a prefix for an aliased URI, one for the URI of
transformations and a default namespace, copied to where all three are in use. Its second
attribute is in the default namespace, so that one more prefix is needed. -/

def richlyDeclared : List Operation :=
  [.appendElement 0 "e", .declare 1 (some "p") "urn:a",
    .declare 1 (some "xsl") transformUri,
    .declare 1 none "urn:d", .setAttribute 1 "x" (some ⟨1, 0⟩) "1",
    .setAttribute 1 "y" (some ⟨1, 2⟩) "2"]

def occupiedHost : List Operation :=
  [.appendElement 0 "host", .declare 1 (some "p") "urn:p", .declare 1 none "urn:h",
    .declare 1 (some "xsl") "urn:x"]

theorem declarations_copyNode_richlyDeclared :
    ∃ document compilation source output held,
      Document.after aliasingStylesheet = some document ∧
      Stylesheet.compile document {} = .ok compilation ∧
      Document.after richlyDeclared = some source ∧
      source.content 1 = .ok (.element held) ∧ Document.after occupiedHost = some output ∧
      ∃ started begun result declarations,
        (Edit.appendElement 1 held.name).on output = .ok (.ok 2, started) ∧
        (compilation.stylesheet.aliases.copyDeclarations 2 held.declarations).on started =
          .ok (.ok [⟨2, 0⟩, ⟨2, 1⟩], begun) ∧
        copyNode { stylesheet := compilation.stylesheet, source, result := output } 1 1 =
          .ok (.ok 2, { stylesheet := compilation.stylesheet, source, result }) ∧
        result.declarations 2 = .ok declarations ∧
        compilation.stylesheet.aliases.cloned held.declarations <+: declarations ∧
        declarations = [⟨some "p", "urn:b"⟩, ⟨none, "urn:d"⟩, ⟨some "ns", "urn:d"⟩] := by
  have sheetMade : ∃ document compilation,
      Document.after aliasingStylesheet = some document ∧
      Stylesheet.compile document {} = .ok compilation ∧
      compilation.stylesheet =
        { aliases := AliasTable.empty.declare "urn:a" ⟨"urn:b", 2⟩ } :=
    ⟨_, _, rfl, rfl, rfl⟩
  have sourceMade : ∃ source held, Document.after richlyDeclared = some source ∧
      source.content 1 = .ok (.element held) := ⟨_, _, rfl, rfl⟩
  have outputMade : ∃ output, Document.after occupiedHost = some output := ⟨_, rfl⟩
  rcases sheetMade with ⟨document, compilation, made, compiled, sheet⟩
  rcases sourceMade with ⟨source, held, sourceMade, holds⟩
  rcases outputMade with ⟨output, outputMade⟩
  have ready : source.AllKnown ∧ output.Acyclic ∧ output.Hosts 1 ∧ output.size = 2 := by
    cases sourceMade
    cases outputMade
    exact ⟨by decide, acyclic_of_climb (by decide), ⟨_, rfl, trivial⟩, rfl⟩
  rcases ready with ⟨known, acyclic, hosts, size⟩
  rcases @declarations_copyNode
    { stylesheet := compilation.stylesheet, source, result := output } 1 1 held
    (reachable_of_after sourceMade) known holds (reachable_of_after outputMade) acyclic
    hosts with
    ⟨started, begun, result, declarations, appended, cloned, _, copied, declared, begins⟩
  simp only [size] at appended cloned copied declared
  have two : (held.declarations.filter (·.uri ≠ transformUri)).length = 2 := by
    cases sourceMade
    cases holds
    decide
  rw [two] at cloned
  have shown : (fun outcome => outcome.2.result.declarations 2) <$>
      copyNode { stylesheet := compilation.stylesheet, source, result := output } 1 1 =
        .ok (.ok [⟨some "p", "urn:b"⟩, ⟨none, "urn:d"⟩, ⟨some "ns", "urn:d"⟩]) := by
    rw [sheet]
    cases sourceMade
    cases outputMade
    decide +kernel
  rw [copied, Reading.map_ok, declared] at shown
  exact ⟨document, compilation, source, output, held, made, compiled, sourceMade, holds,
    outputMade, started, begun, result, declarations, appended, cloned, copied,
    declared, begins, Except.ok.inj (Except.ok.inj shown)⟩

end Run

end ResultTree
