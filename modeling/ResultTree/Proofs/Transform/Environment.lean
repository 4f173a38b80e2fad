import ResultTree.Proofs.Stylesheet.Compiled
import ResultTree.Proofs.Transform.Following

namespace ResultTree

/-! The namespaces in scope throughout a copied document. Where `xml` keeps its URI, a
prefix denotes at every copy what the aliases make of its meaning at the original, unless
that is the namespace of transformations. -/

namespace AliasTable

open Document

variable {source before after : Document} {node nodeCopy original copy : NodeId}

theorem inside_of_isCopy (linked : after.Linked) (inside : nodeCopy < after.size)
    (isCopy : source.IsCopy before after node nodeCopy original copy) :
    copy < after.size := by
  cases isCopy with
  | self => exact inside
  | child _ _ copyListed => exact linked.childInside (List.mem_of_getElem? copyListed)

end AliasTable

namespace Run

open Document

variable {source : Document} {stylesheet : Stylesheet}

/-- Copying a whole document to an empty result takes what every prefix denotes through
the aliases once, at every node. -/
theorem uri_findPrefix_copyTree (compiled : stylesheet.Compiled)
    (plain : stylesheet.aliases.get? xmlUri = none) (reachable : source.Reachable)
    (consistent : source.Consistent) :
    ∃ run, (start stylesheet source).copyTree root root = .ok (.ok root, run) ∧
      (∀ original, source.Attached original →
        ∃ copy, source.IsCopy .empty run.result root root original copy) ∧
      ∀ original copy nsPrefix handle binding,
        source.IsCopy .empty run.result root root original copy →
        source.findPrefix original nsPrefix = .ok (some handle) →
        source.binding handle = .ok binding → binding.uri ≠ transformUri →
        ∃ other found, run.result.findPrefix copy nsPrefix = .ok (some other) ∧
          run.result.binding other = .ok found ∧
          found.uri = stylesheet.aliases.target binding.uri := by
  have linked := reachable.linked
  have orderly := reachable.orderly
  have hosts : Document.empty.Hosts root := ⟨_, rfl, trivial⟩
  have plainXml : stylesheet.aliases.target xmlUri = xmlUri := by
    rw [AliasTable.target, plain, Option.getD_none]
  have plainEmpty := compiled.substantial.target_empty
  rcases AliasTable.grafts_copyTree stylesheet.aliases linked orderly consistent
    attached_root Document.Linked.empty hosts (.top rfl) with ⟨after, outcome, graft⟩
  have afterLinked := graft.changes.linked .empty
  have afterOrderly :=
    graft.changes.holds Document.AllOrderly.empty Document.AllOrderly.kept
  have top : ∃ nodes copyNodes, source.Way root nodes ∧ after.Way root copyNodes ∧
      (after.scopeAlong copyNodes).Follows stylesheet.aliases (fun _ => True)
        (source.scopeAlong nodes) := by
    refine ⟨_, _, .top linked.rootLoose, .top afterLinked.rootLoose, ?_⟩
    rw [linked.scopeAlong_root, afterLinked.scopeAlong_root]
    exact Scope.follows_xml fun _ => plainXml
  refine ⟨_, edit_of outcome, fun original attached =>
    graft.exists_isCopy linked attached_root hosts.inside attached, ?_⟩
  intro original copy nsPrefix handle binding isCopy found known notTransform
  have inside := (AliasTable.attached_of_isCopy linked attached_root isCopy).inside linked
  have copyInside := AliasTable.inside_of_isCopy afterLinked afterLinked.rootInside isCopy
  rcases graft.follows linked orderly consistent.wellNamed attached_root hosts.inside
    afterLinked afterOrderly (fun _ => ⟨consistent, plainEmpty, plainXml⟩) top isCopy with
    ⟨nodes, copyNodes, way, copyWay, follows⟩
  rw [way.findPrefix linked inside] at found
  rcases Option.map_eq_some_iff.mp (Except.ok.inj found) with ⟨declaration, denoted, rfl⟩
  cases known.symm.trans (linked.binding_of_denoted denoted)
  rcases follows.denotes nsPrefix declaration trivial denoted notTransform with
    ⟨other, copyDenoted, sameUri⟩
  refine ⟨other.handle, other.binding, ?_, afterLinked.binding_of_denoted copyDenoted,
    sameUri⟩
  rw [copyWay.findPrefix afterLinked copyInside, copyDenoted]
  rfl

/-! A stylesheet with one alias, and an element that undeclares the default namespace and
declares a prefix again for the URI of transformations. -/

def aliasingStylesheet : List Operation :=
  [.appendElement 0 "stylesheet", .declare 1 (some "xsl") transformUri,
    .declare 1 (some "a") "urn:a", .declare 1 (some "b") "urn:b",
    .setNamespace 1 (some ⟨1, 0⟩),
    .appendElement 1 "namespace-alias", .setNamespace 2 (some ⟨1, 0⟩),
    .setAttribute 2 "stylesheet-prefix" none "a",
    .setAttribute 2 "result-prefix" none "b"]

def undeclaredDefault : List Operation :=
  [.appendElement 0 "outer", .declare 1 none "urn:a", .declare 1 (some "p") "urn:b",
    .setNamespace 1 (some ⟨1, 0⟩), .appendElement 1 "inner", .declare 2 none "",
    .declare 2 (some "p") transformUri, .declare 2 (some "q") "urn:a",
    .setAttribute 2 "x" (some ⟨2, 2⟩) "1"]

theorem uri_findPrefix_copyTree_undeclaredDefault :
    ∃ document compilation source, Document.after aliasingStylesheet = some document ∧
      Stylesheet.compile document {} = .ok compilation ∧
      compilation.stylesheet.aliases.get? xmlUri = none ∧
      Document.after undeclaredDefault = some source ∧
      ∃ run, (start compilation.stylesheet source).copyTree root root =
        .ok (.ok root, run) ∧
        ∀ original copy nsPrefix handle binding,
          source.IsCopy .empty run.result root root original copy →
          source.findPrefix original nsPrefix = .ok (some handle) →
          source.binding handle = .ok binding → binding.uri ≠ transformUri →
          ∃ other found, run.result.findPrefix copy nsPrefix = .ok (some other) ∧
            run.result.binding other = .ok found ∧
            found.uri = compilation.stylesheet.aliases.target binding.uri := by
  have sheetMade : ∃ document compilation,
      Document.after aliasingStylesheet = some document ∧
      Stylesheet.compile document {} = .ok compilation ∧
      compilation.stylesheet.aliases.get? xmlUri = none := ⟨_, _, rfl, rfl, rfl⟩
  have sourceMade : ∃ source, Document.after undeclaredDefault = some source ∧
      source.Consistent := ⟨_, rfl, consistent_of_all (by decide)⟩
  rcases sheetMade with ⟨document, compilation, made, compiled, plain⟩
  rcases sourceMade with ⟨source, sourceMade, consistent⟩
  rcases uri_findPrefix_copyTree (Stylesheet.compiled_of_compile compiled) plain
    (reachable_of_after sourceMade) consistent with ⟨run, copied, _, followed⟩
  exact ⟨document, compilation, source, made, compiled, plain, sourceMade, run, copied,
    followed⟩

end Run

end ResultTree
