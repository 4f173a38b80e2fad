import ResultTree.Proofs.Transform.AttributeLists

namespace ResultTree

/-! The attributes of a tree that is copied to an empty result. Everything in scope at a
copy was copied as well, so that prefixes keep their meaning all the way down. That leaves
few attributes without a namespace. -/

namespace AliasTable

open Document

/-- A prefix means the same throughout a copied tree. The default namespace may be
undeclared on a copy, and `xml` cannot be declared for what it is aliased to. -/
def Keeps (table : AliasTable) (nsPrefix : Option String) : Prop :=
  nsPrefix ≠ none ∧ (nsPrefix = some "xml" → table.target xmlUri = xmlUri)

variable {table : AliasTable} {source : Document}

theorem follows_xml (table : AliasTable) :
    Scope.Follows table table.Keeps ⟨[Declaration.xml], false⟩
      ⟨[Declaration.xml], false⟩ :=
  Scope.follows_xml fun keeps => keeps.2 rfl

theorem eq_xml_or_keeps {origin : Scope} {held : Element}
    (inScope : source.NamedIn origin held) {wanted : Binding}
    (wants : source.Wants held wanted) :
    (wanted = Binding.xml ∧ table.target xmlUri ≠ xmlUri) ∨
    table.Keeps wanted.nsPrefix := by
  rcases inScope.exists_tells wants with ⟨_, tells, prefixed⟩
  by_cases aliased : wanted.nsPrefix = some "xml" ∧ table.target xmlUri ≠ xmlUri
  · exact .inl ⟨(tells.eq_xml aliased.1).2, aliased.2⟩
  · refine .inr ⟨prefixed, fun isXml => ?_⟩
    by_contra other
    exact aliased ⟨isXml, other⟩

theorem Cause.of_keeps {origin : Scope} {held : Element}
    (inScope : source.NamedIn origin held) {index : Nat} {wanted : Binding}
    (wants : source.WantsAt held index wanted)
    (cause : table.Cause table.Keeps (source.Wants (held.before index)) wanted) :
    (wanted = Binding.xml ∧ table.target xmlUri ≠ xmlUri) ∨
      (wanted.uri = transformUri ∧ ∃ other, source.Wants (held.before index) other ∧
        wanted.Numbers other ∧ table.target other.uri ≠ other.uri) := by
  rcases cause with isXml | ⟨other, isEarlier, numbers, why⟩
  · exact .inl isXml
  · refine (eq_xml_or_keeps inScope wants.wants).imp_right fun keeps => ?_
    refine ⟨(why keeps).1, other, isEarlier, numbers, ?_⟩
    rcases eq_xml_or_keeps inScope isEarlier.of_before with ⟨rfl, aliased⟩ | keepsOther
    · exact aliased
    · exact (why keeps).2 keepsOther

end AliasTable

namespace Run

open Document

variable {source : Document}

/-- Copying a whole document to an empty result puts its attributes, one after the other,
in the namespaces that the aliases give for theirs, but for those in the namespace of the
copy as it is. An attribute loses its namespace only if it is named with `xml`, which is
aliased, or if it is in the namespace of transformations and its prefix is the one of an
earlier attribute in an aliased namespace, followed by a number. -/
theorem attributes_copyTree (stylesheet : Stylesheet) (reachable : source.Reachable)
    (consistent : source.Consistent) :
    ∃ run, (start stylesheet source).copyTree root root = .ok (.ok root, run) ∧
      (∀ original, source.Attached original →
        ∃ copy, source.IsCopy .empty run.result root root original copy) ∧
      ∀ original copy held, source.IsCopy .empty run.result root root original copy →
        source.content original = .ok (.element held) →
        ∃ own restated, run.result.namespaceUri? copy = .ok own ∧
          stylesheet.aliases.Restates source run.result held copy own restated ∧
          run.result.attributePictures copy =
            .ok ((Named.putAll restated).map Named.picture) ∧
          (Named.Different restated →
            run.result.attributePictures copy = .ok (restated.map Named.picture)) ∧
          ∀ index wanted, source.WantsAt held index wanted →
            stylesheet.aliases.CrowdsOut source run.result held copy index wanted →
            (wanted = Binding.xml ∧ stylesheet.aliases.target xmlUri ≠ xmlUri) ∨
              (wanted.uri = transformUri ∧
                ∃ other, source.Wants (held.before index) other ∧ wanted.Numbers other ∧
                  stylesheet.aliases.target other.uri ≠ other.uri) := by
  have linked := reachable.linked
  have orderly := reachable.orderly
  have hosts : Document.empty.Hosts root := ⟨_, rfl, trivial⟩
  rcases AliasTable.grafts_copyTree stylesheet.aliases linked orderly consistent
    attached_root Document.Linked.empty hosts (.top rfl) with ⟨after, outcome, graft⟩
  have afterLinked := graft.changes.linked .empty
  have afterOrderly :=
    graft.changes.holds Document.AllOrderly.empty Document.AllOrderly.kept
  have plain : stylesheet.aliases.Keeps none → source.Consistent ∧
      stylesheet.aliases.target "" = "" ∧ stylesheet.aliases.target xmlUri = xmlUri :=
    fun keeps => absurd rfl keeps.1
  have top : ∃ nodes copyNodes, source.Way root nodes ∧ after.Way root copyNodes ∧
      (after.scopeAlong copyNodes).Follows stylesheet.aliases stylesheet.aliases.Keeps
        (source.scopeAlong nodes) := by
    refine ⟨_, _, .top linked.rootLoose, .top afterLinked.rootLoose, ?_⟩
    rw [linked.scopeAlong_root, afterLinked.scopeAlong_root]
    exact AliasTable.follows_xml _
  refine ⟨_, edit_of outcome, fun original attached =>
    graft.exists_isCopy linked attached_root hosts.inside attached, ?_⟩
  intro original copy held isCopy holds
  have attached := AliasTable.attached_of_isCopy linked attached_root isCopy
  have stands := graft.standsFor linked attached_root hosts.inside isCopy holds
  cases isCopy with
  | self =>
      rcases linked.top with ⟨node, found, shape, _⟩
      rw [content_of found, shape] at holds
      cases holds
  | child parents listed copyListed =>
      rcases graft.follows linked orderly consistent.wellNamed attached_root hosts.inside
        afterLinked afterOrderly plain top parents with
        ⟨nodes, copyNodes, way, copyWay, follows⟩
      have childWay := way.child linked (List.mem_of_getElem? listed)
      have copyChildWay := copyWay.child afterLinked (List.mem_of_getElem? copyListed)
      rcases stands.restates linked orderly consistent.wellNamed attached afterLinked
        afterOrderly holds childWay copyChildWay follows plain with
        ⟨own, restated, ownUri, restates, put, cause⟩
      refine ⟨own, restated, ownUri, restates, put, fun different => ?_, ?_⟩
      · rw [put, Named.putAll_eq_self different]
      · intro index wanted wants crowds
        exact (cause index wanted wants crowds).of_keeps
          (consistent.wellNamed.inScope linked orderly attached holds childWay).2 wants

/-! A stylesheet that swaps two namespaces and has an alias for `xml`, and an element in
one of the two with an attribute in the other and one that is named with `xml`. -/

def swappingStylesheet : List Operation :=
  [.appendElement 0 "stylesheet", .declare 1 (some "xsl") transformUri,
    .declare 1 (some "a") "urn:a", .declare 1 (some "b") "urn:b",
    .declare 1 (some "c") "urn:c", .setNamespace 1 (some ⟨1, 0⟩),
    .appendElement 1 "namespace-alias", .setNamespace 2 (some ⟨1, 0⟩),
    .setAttribute 2 "stylesheet-prefix" none "a",
    .setAttribute 2 "result-prefix" none "b",
    .appendElement 1 "namespace-alias", .setNamespace 3 (some ⟨1, 0⟩),
    .setAttribute 3 "stylesheet-prefix" none "b",
    .setAttribute 3 "result-prefix" none "a",
    .appendElement 1 "namespace-alias", .setNamespace 4 (some ⟨1, 0⟩),
    .setAttribute 4 "stylesheet-prefix" none "xml",
    .setAttribute 4 "result-prefix" none "c"]

def swappedAliases : AliasTable :=
  ((AliasTable.empty.declare "urn:a" ⟨"urn:b", 2⟩).declare "urn:b" ⟨"urn:a", 3⟩).declare
    xmlUri ⟨"urn:c", 4⟩

theorem compile_swappingStylesheet :
    ∃ document compilation, Document.after swappingStylesheet = some document ∧
      Stylesheet.compile document {} = .ok compilation ∧
      compilation.stylesheet = { aliases := swappedAliases } :=
  ⟨_, _, rfl, rfl, rfl⟩

def swappedNamespaces : List Operation :=
  [.appendElement 0 "e", .declare 1 (some "a") "urn:a", .declare 1 (some "b") "urn:b",
    .setNamespace 1 (some ⟨1, 0⟩), .setAttribute 1 "x" (some ⟨1, 1⟩) "1",
    .setAttribute 1 "lang" (some ⟨0, 0⟩) "en"]

theorem attributes_copyTree_swapped :
    ∃ source, Document.after swappedNamespaces = some source ∧
      ∃ run, (start { aliases := swappedAliases } source).copyTree root root =
          .ok (.ok root, run) ∧
        ∀ original copy held, source.IsCopy .empty run.result root root original copy →
          source.content original = .ok (.element held) →
          ∃ own restated, run.result.namespaceUri? copy = .ok own ∧
            swappedAliases.Restates source run.result held copy own restated ∧
            (Named.Different restated →
              run.result.attributePictures copy = .ok (restated.map Named.picture)) := by
  have made : ∃ source, Document.after swappedNamespaces = some source ∧
      source.Consistent :=
    ⟨_, rfl, consistent_of_all (by decide)⟩
  rcases made with ⟨source, made, consistent⟩
  rcases attributes_copyTree { aliases := swappedAliases } (reachable_of_after made)
    consistent with ⟨run, copied, _, attributes⟩
  refine ⟨source, made, run, copied, fun original copy held isCopy holds => ?_⟩
  rcases attributes original copy held isCopy holds with
    ⟨own, restated, ownUri, restates, _, kept, _⟩
  exact ⟨own, restated, ownUri, restates, kept⟩

/-- The first attribute is in the namespace that the aliases give to the element and stays
there. The second is left without a namespace. -/
theorem attributes_of_swapped :
    ∃ document compilation, Document.after swappingStylesheet = some document ∧
      Stylesheet.compile document {} = .ok compilation ∧
      compilation.stylesheet.aliases.target "urn:b" = "urn:a" ∧
      compilation.stylesheet.aliases.target xmlUri = "urn:c" ∧
      ∃ source, Document.after swappedNamespaces = some source ∧ source.Consistent ∧
        ∃ run, (start compilation.stylesheet source).copyTree root root =
          .ok (.ok root, run) ∧
          source.IsCopy .empty run.result root root 1 1 ∧
          source.attributePictures 1 =
            .ok [("x", some "urn:b", "1"), ("lang", some xmlUri, "en")] ∧
          run.result.attributePictures 1 =
            .ok [("x", some "urn:b", "1"), ("lang", none, "en")] := by
  rcases compile_swappingStylesheet with ⟨document, compilation, declared, compiled, same⟩
  refine ⟨document, compilation, declared, compiled, ?_⟩
  rw [same]
  exact ⟨rfl, rfl, _, rfl, consistent_of_all (by decide), _, rfl,
    @IsCopy.child _ _ _ _ _ _ _ _ _ 0 .self rfl rfl, rfl, rfl⟩

end Run

end ResultTree
