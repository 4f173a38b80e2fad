import ResultTree.Proofs.Transform.PlainAttributes

namespace ResultTree

/-! A stylesheet without aliases copies a consistent document to one that shows the same.
The scopes are compared from the top down: what a copy serves its names with, its
children find above them. -/

/-- Every prefix denotes the URI in a scope of the result that it denotes in a scope of
the source, that of transformations left out. -/
structure Scope.Carries (result source : Scope) : Prop where
  rooted : Declaration.xml ∈ result.declarations
  denotes : ∀ (nsPrefix : Option String) (found : Declaration),
    source.denoted? nsPrefix = some found → found.binding.uri ≠ transformUri →
    ∃ other, result.denoted? nsPrefix = some other ∧ other.binding.uri = found.binding.uri

theorem Scope.Carries.refl {scope : Scope}
    (rooted : Declaration.xml ∈ scope.declarations) :
    scope.Carries scope :=
  ⟨rooted, fun _ found denoted _ => ⟨found, denoted, rfl⟩⟩

/-- To carry a scope is to follow it without aliases, with all prefixes kept. -/
theorem Scope.carries_iff {result source : Scope} :
    result.Carries source ↔ result.Follows .empty (fun _ => True) source := by
  constructor
  · exact fun carries =>
      ⟨fun _ _ => carries.rooted, fun nsPrefix found _ => carries.denotes nsPrefix found⟩
  · exact fun follows =>
      ⟨follows.rooted none trivial,
        fun nsPrefix found => follows.denotes nsPrefix found trivial⟩

structure Document.Mirrors (source after : Document) (pairs : List (NodeId × NodeId))
    (original copy : NodeId) : Prop where
  content : ∃ held copied, source.content original = .ok held ∧
    after.content copy = .ok copied ∧
    Agree (source.contentPicture held) (after.contentPicture copied)
  children : List.Forall₂ (fun child childCopy => (child, childCopy) ∈ pairs)
    (source.childLinks original) (after.childLinks copy)
  scopes : ∃ nodes copyNodes, source.Way original nodes ∧ after.Way copy copyNodes ∧
    (after.scopeAlong copyNodes).Carries (source.scopeAlong nodes)

namespace AliasTable

open Document

variable {source after : Document} {original copy : NodeId}
  {nodes copyNodes : List NodeId} {pairs : List (NodeId × NodeId)}

/-! ## One node -/

theorem agree_of_element {held copied : Element}
    (holds : source.content original = .ok (.element held))
    (copyHeld : after.content copy = .ok (.element copied))
    (name : copied.name = held.name)
    (uri : Agree (source.namespaceUri? original) (after.namespaceUri? copy))
    (attributes :
      Agree (source.attributePictures original) (after.attributePictures copy)) :
    Agree (source.contentPicture (.element held))
      (after.contentPicture (.element copied)) := by
  rw [namespaceUri?_of_element holds, namespaceUri?_of_element copyHeld] at uri
  rw [attributePictures, attributePictures, attributes_of_element holds,
    attributes_of_element copyHeld] at attributes
  rcases uri with ⟨uri, known, copyKnown⟩
  rcases attributes with ⟨pictures, shown, copyShown⟩
  rw [Reading.ok_bind] at shown copyShown
  exact ⟨.element held.name uri pictures, by simp [contentPicture, known, shown],
    by simp [contentPicture, copyKnown, copyShown, name]⟩

theorem not_cause_empty {earlier : Binding → Prop} {wanted : Binding} :
    ¬ AliasTable.empty.Cause (fun _ => True) earlier wanted := by
  rintro (⟨_, aliased⟩ | ⟨other, _, _, why⟩)
  · exact aliased rfl
  · exact (why trivial).2 trivial rfl

theorem StandsFor.agree_element
    (stands : AliasTable.empty.StandsFor source after original copy)
    (linked : source.Linked) (orderly : source.AllOrderly)
    (consistent : source.Consistent) (attached : source.Attached original)
    (afterLinked : after.Linked) (afterOrderly : after.AllOrderly) {held copied : Element}
    (holds : source.content original = .ok (.element held))
    (copyHeld : after.content copy = .ok (.element copied))
    (name : copied.name = held.name) (way : source.Way original (original :: nodes))
    (copyWay : after.Way copy (copy :: copyNodes))
    (follows : (after.scopeAlong copyNodes).Follows .empty (fun _ => True)
      (source.scopeAlong nodes)) :
    Agree (source.contentPicture (.element held))
      (after.contentPicture (.element copied)) := by
  refine agree_of_element holds copyHeld name ?_ ?_
  · rcases stands.renames linked orderly consistent.wellNamed attached afterLinked
      holds with
      ⟨uri, known, _, renamed⟩
    have stays : ¬ AliasTable.empty.Strands after held copy := by
      rintro ⟨_, _, aliased, _⟩
      cases aliased
    refine ⟨uri, known, (renamed stays).trans ?_⟩
    cases uri <;> rfl
  · rcases stands.restates linked orderly consistent.wellNamed attached afterLinked
      afterOrderly holds way copyWay follows (fun _ => ⟨consistent, rfl, rfl⟩) with
      ⟨own, restated, _, restates, put, cause⟩
    have inOrder := orderly _ _ holds
    rcases Reading.exists_mapM inOrder.picture_known with ⟨pictures, shown⟩
    have same :=
      (restates.putAll_eq_iff inOrder shown).mpr fun index wanted wants crowds =>
        not_cause_empty (cause index wanted wants crowds)
    refine ⟨pictures, ?_, same ▸ put⟩
    rw [attributePictures, attributes_of_element holds, Reading.ok_bind, shown]

theorem StandsFor.mirrors (stands : AliasTable.empty.StandsFor source after original copy)
    (linked : source.Linked) (orderly : source.AllOrderly)
    (consistent : source.Consistent) (attached : source.Attached original)
    (afterLinked : after.Linked) (afterOrderly : after.AllOrderly)
    (way : source.Way original (original :: nodes))
    (copyWay : after.Way copy (copy :: copyNodes))
    (carries : (after.scopeAlong copyNodes).Carries (source.scopeAlong nodes))
    (children : List.Forall₂ (fun child childCopy => (child, childCopy) ∈ pairs)
      (source.childLinks original) (after.childLinks copy)) :
    source.Mirrors after pairs original copy := by
  have follows := Scope.carries_iff.mp carries
  have below := stands.follows linked orderly consistent.wellNamed attached afterLinked
    afterOrderly way copyWay follows fun _ => ⟨consistent, rfl, rfl⟩
  refine ⟨?_, children, _, _, way, copyWay, Scope.carries_iff.mpr below⟩
  have whole := stands
  rcases whole with ⟨node, copied, _, found, copyFound, _, content⟩
  have held := content_of found
  have copyHeld := content_of copyFound
  generalize node.content = sourceContent at held content
  generalize copied.content = copyContent at copyHeld content
  cases content with
  | element _ _ =>
      exact ⟨_, _, held, copyHeld, stands.agree_element linked orderly consistent attached
        afterLinked afterOrderly held copyHeld rfl way copyWay follows⟩
  | _ => exact ⟨_, _, held, copyHeld, _, rfl, rfl⟩

/-! ## All nodes -/

theorem mirrors_child (linked : source.Linked) (orderly : source.AllOrderly)
    (consistent : source.Consistent) (afterLinked : after.Linked)
    (afterOrderly : after.AllOrderly)
    (copied : ∀ {original copy : NodeId}, (original, copy) ∈ pairs →
      AliasTable.empty.Copied source after pairs original copy)
    (attached : source.Attached original)
    (mirrors : source.Mirrors after pairs original copy) {child childCopy : NodeId}
    (member : child ∈ source.childLinks original)
    (copyMember : childCopy ∈ after.childLinks copy)
    (paired : (child, childCopy) ∈ pairs) :
    source.Mirrors after pairs child childCopy := by
  rcases mirrors.scopes with ⟨nodes, copyNodes, way, copyWay, carries⟩
  have copiedChild := copied paired
  exact copiedChild.content.mirrors linked orderly consistent
    (attached.child linked member) afterLinked afterOrderly (way.child linked member)
    (copyWay.child afterLinked copyMember) carries copiedChild.children

theorem agree_preorder (linked : source.Linked) (orderly : source.AllOrderly)
    (consistent : source.Consistent) (afterLinked : after.Linked)
    (afterOrderly : after.AllOrderly)
    (copied : ∀ {original copy : NodeId}, (original, copy) ∈ pairs →
      AliasTable.empty.Copied source after pairs original copy)
    (attached : source.Attached original)
    (mirrors : source.Mirrors after pairs original copy) (depth : Nat) :
    List.Forall₂
      (fun node copyNode => Agree (source.picture node) (after.picture copyNode))
      (source.preorder depth original) (after.preorder depth copy) := by
  induction depth generalizing original copy with
  | zero => exact .nil
  | succ depth induction =>
      refine .cons ?_ (List.rel_flatMap (forall₂_mem mirrors.children) ?_)
      · rcases mirrors.content with ⟨_, _, held, copyHeld, same⟩
        exact agree_picture held copyHeld same mirrors.children.length_eq
      · rintro child childCopy ⟨member, copyMember, paired⟩
        exact induction (attached.child linked member)
          (mirrors_child linked orderly consistent afterLinked afterOrderly copied
            attached mirrors member copyMember paired)

theorem Graft.mirrors_root (linked : source.Linked)
    (graft : AliasTable.empty.Graft source .empty after Document.root
      (source.childLinks Document.root)) :
    source.Mirrors after (source.pairs 1 (source.childLinks Document.root)) Document.root
      Document.root := by
  have afterLinked := graft.changes.linked .empty
  have ends : source.AllEnd (source.childLinks Document.root) := fun child member =>
    ⟨linked.childInside member, _, (Way.top linked.rootLoose).child linked member⟩
  have new :=
    graft.old
      (show Document.empty.nodes[Document.root]? = some { content := .document } from rfl)
  refine ⟨?content, ?children, ?scopes⟩
  case content =>
    rcases linked.top with ⟨node, found, shape, _⟩
    exact ⟨.document, .document, content_eq_ok_iff.mpr ⟨node, found, shape⟩,
      content_eq_ok_iff.mpr ⟨_, new, rfl⟩, _, rfl, rfl⟩
  case children =>
    rw [childLinks_of new]
    exact mem_numbered_pairs linked ends 1
  case scopes =>
    refine ⟨_, _, .top linked.rootLoose, .top afterLinked.rootLoose, ?_⟩
    rw [linked.scopeAlong_root, afterLinked.scopeAlong_root]
    exact .refl (by simp)

end AliasTable

/-! ## The identity transformation -/

/-- Without a stylesheet, a consistent document is copied to one with the same outline. -/
theorem Run.outline_copyTree {source : Document} (reachable : source.Reachable)
    (consistent : source.Consistent) :
    ∃ run outline,
      (Run.start {} source).copyTree Document.root Document.root =
        .ok (.ok Document.root, run) ∧
      source.outline Document.root = .ok outline ∧
      run.result.outline Document.root = .ok outline := by
  have linked := reachable.linked
  have orderly := reachable.orderly
  have hosts : Document.empty.Hosts Document.root := ⟨_, rfl, trivial⟩
  rcases AliasTable.grafts_copyTree .empty linked orderly consistent
    Document.attached_root Document.Linked.empty hosts (.top rfl) with
    ⟨after, outcome, graft⟩
  have afterLinked := graft.changes.linked .empty
  have afterOrderly := Document.Changes.holds graft.changes Document.AllOrderly.empty
    Document.AllOrderly.kept
  have rootWay := Document.Way.top linked.rootLoose
  have afterWay := Document.Way.top afterLinked.rootLoose
  have mirrors := AliasTable.Graft.mirrors_root linked graft
  have agree :=
    AliasTable.agree_preorder linked orderly consistent afterLinked afterOrderly
      graft.copied Document.attached_root mirrors (source.size + after.size)
  have enough : source.size < source.size + after.size + [Document.root].length := by
    rw [List.length_singleton]
    omega
  have afterEnough : after.size < source.size + after.size + [Document.root].length := by
    rw [List.length_singleton]
    omega
  rw [Document.preorder_eq_subtree linked rootWay linked.rootInside enough,
    Document.preorder_eq_subtree afterLinked afterWay afterLinked.rootInside afterEnough]
    at agree
  rcases Document.agree_outline linked rootWay linked.rootInside afterLinked afterWay
    afterLinked.rootInside agree with ⟨outline, shown, copyShown⟩
  exact ⟨_, outline, edit_of outcome, shown, copyShown⟩

theorem Run.outline_copyTree_redeclared :
    ∃ source, Document.after [.appendElement 0 "root", .declare 1 (some "p") "urn:x",
        .setNamespace 1 (some ⟨1, 0⟩), .appendElement 1 "value-of",
        .declare 2 (some "p") transformUri, .setNamespace 2 (some ⟨2, 0⟩),
        .setAttribute 2 "select" (some ⟨2, 0⟩) "name"] = some source ∧
      ∃ run outline,
        (Run.start {} source).copyTree Document.root Document.root =
          .ok (.ok Document.root, run) ∧
        source.outline Document.root = .ok outline ∧
        run.result.outline Document.root = .ok outline := by
  have made : ∃ source,
      Document.after [.appendElement 0 "root", .declare 1 (some "p") "urn:x",
      .setNamespace 1 (some ⟨1, 0⟩), .appendElement 1 "value-of",
      .declare 2 (some "p") transformUri, .setNamespace 2 (some ⟨2, 0⟩),
      .setAttribute 2 "select" (some ⟨2, 0⟩) "name"] = some source ∧ source.Consistent :=
    ⟨_, rfl, Document.consistent_of_all (by decide)⟩
  rcases made with ⟨source, made, consistent⟩
  exact ⟨source, made, outline_copyTree (Document.reachable_of_after made) consistent⟩

end ResultTree
