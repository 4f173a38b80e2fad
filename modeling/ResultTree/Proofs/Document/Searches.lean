import Mathlib.Data.List.Find
import ResultTree.Proofs.Document.Scope

namespace ResultTree

/-! The ways of asking for what is in scope agree. What is listed as visible has each
prefix once, a search for a prefix finds what is listed under it, and a search for a URI
finds what is listed first with it. -/

namespace Scope

variable {scope : Scope}

/-- A search that skips what is hidden asks of each declaration whether it is the first
of its prefix. -/
theorem find?_eraseDupsBy (wanted : Declaration → Bool)
    (declarations : List Declaration) :
    (declarations.eraseDupsBy fun farther nearer =>
        farther.binding.nsPrefix = nearer.binding.nsPrefix).find? wanted =
      declarations.find? fun declaration => wanted declaration &&
        declarations.find? (·.binding.nsPrefix = declaration.binding.nsPrefix) =
          some declaration := by
  generalize bound : declarations.length = length
  induction length using Nat.strongRecOn generalizing declarations with
  | ind length induction =>
      cases declarations with
      | nil => rfl
      | cons nearest rest =>
          have shorter : (rest.filter fun declaration =>
              decide (declaration.binding.nsPrefix = nearest.binding.nsPrefix) =
                false).length < length :=
            Nat.lt_of_le_of_lt (List.length_filter_le _ _) (by simp [← bound])
          rw [List.eraseDupsBy_cons]
          cases first : wanted nearest with
          | true => simp [first]
          | false =>
              rw [List.find?_cons_of_neg (by simp [first]),
                List.find?_cons_of_neg (by simp [first]), induction _ shorter _ rfl,
                List.find?_filter]
              congr 1
              funext declaration
              by_cases same : nearest.binding.nsPrefix = declaration.binding.nsPrefix
              · have hidden : ¬ (wanted declaration ∧ nearest = declaration) := by
                  rintro ⟨isWanted, rfl⟩
                  simp [first] at isWanted
                simpa [same] using hidden
              · have other : declaration.binding.nsPrefix ≠ nearest.binding.nsPrefix :=
                  fun equal => same equal.symm
                rw [List.find?_cons_of_neg (by simpa using same), find?_filter_other same]
                simp [other]

theorem pairwise_eraseDupsBy (declarations : List Declaration) :
    (declarations.eraseDupsBy fun farther nearer =>
      farther.binding.nsPrefix = nearer.binding.nsPrefix).Pairwise
        fun left right => left.binding.nsPrefix ≠ right.binding.nsPrefix := by
  generalize bound : declarations.length = length
  induction length using Nat.strongRecOn generalizing declarations with
  | ind length induction =>
      cases declarations with
      | nil => simp
      | cons nearest rest =>
          have shorter : (rest.filter fun declaration =>
              decide (declaration.binding.nsPrefix = nearest.binding.nsPrefix) =
                false).length < length :=
            Nat.lt_of_le_of_lt (List.length_filter_le _ _) (by simp [← bound])
          rw [List.eraseDupsBy_cons]
          refine .cons (fun other member same => ?_) (induction _ shorter _ rfl)
          have kept := List.mem_of_find?_eq_some (mem_eraseDupsBy_iff.mp member)
          simpa [same] using (List.mem_filter.mp kept).2

theorem nodup_visible (scope : Scope) :
    (scope.visible.map (·.binding.nsPrefix)).Nodup :=
  List.pairwise_map.mpr (pairwise_eraseDupsBy scope.declarations)

theorem mem_declarations_of_mem_visible {found : Declaration}
    (member : found ∈ scope.visible) :
    found ∈ scope.declarations :=
  List.mem_of_find?_eq_some (mem_visible_iff.mp member)

theorem find?_visible_prefix (scope : Scope) (nsPrefix : Option String) :
    scope.visible.find? (·.binding.nsPrefix = nsPrefix) =
      scope.declarations.find? (·.binding.nsPrefix = nsPrefix) := by
  cases nearest : scope.declarations.find? (·.binding.nsPrefix = nsPrefix) with
  | none =>
      rw [List.find?_eq_none] at nearest ⊢
      exact fun declaration member =>
        nearest declaration (mem_declarations_of_mem_visible member)
  | some found =>
      have own : found.binding.nsPrefix = nsPrefix := by
        simpa using List.find?_some nearest
      have visible : found ∈ scope.visible := mem_visible_iff.mpr (own ▸ nearest)
      have listed : (scope.visible.find? (·.binding.nsPrefix = nsPrefix)).isSome :=
        List.find?_isSome.mpr ⟨found, visible, by simpa using own⟩
      rcases Option.isSome_iff_exists.mp listed with ⟨other, otherFound⟩
      have otherOwn : other.binding.nsPrefix = nsPrefix := by
        simpa using List.find?_some otherFound
      have first := mem_visible_iff.mp (List.mem_of_find?_eq_some otherFound)
      rw [otherOwn, nearest] at first
      rw [otherFound, first]

theorem Coherent.nearest?_eq_iff (coherent : scope.Coherent) {declaration : Declaration}
    (member : declaration ∈ scope.declarations) :
    scope.nearest? declaration.binding.nsPrefix = some declaration.handle ↔
      scope.declarations.find? (·.binding.nsPrefix = declaration.binding.nsPrefix) =
        some declaration := by
  rw [nearest?_eq_map_find?, Option.map_eq_some_iff]
  constructor
  · rintro ⟨first, found, sameHandle⟩
    rw [found, coherent.unique first (List.mem_of_find?_eq_some found) declaration member
      sameHandle]
  · exact fun found => ⟨declaration, found, rfl⟩

theorem Coherent.find?_visible_uri (coherent : scope.Coherent) (uri : String) :
    scope.visible.find? (·.binding.uri = uri) =
      scope.declarations.find? fun declaration =>
        declaration.binding.uri = uri &&
          scope.nearest? declaration.binding.nsPrefix = some declaration.handle := by
  rw [visible, find?_eraseDupsBy]
  refine List.find?_congr fun declaration member => ?_
  simp only [coherent.nearest?_eq_iff member]

end Scope

namespace Document

variable {document : Document}

/-- What is listed as visible answers both searches, but for `xml` and its URI, which
have the same answer everywhere. -/
theorem searches_agree (reachable : document.Reachable) (id : NodeId) :
    document.findPrefix id (some "xml") = .ok (some xmlHandle) ∧
      document.findUri id xmlUri = .ok (some xmlHandle) ∧
      document.binding xmlHandle = .ok Binding.xml ∧
      ∀ nodes, document.ancestorsOrSelf id = .ok nodes →
        ∃ visible, document.inScope id = .ok visible ∧
          (∀ declaration ∈ visible,
            document.binding declaration.handle = .ok declaration.binding) ∧
          (visible.map (·.binding.nsPrefix)).Nodup ∧
          (∀ nsPrefix ≠ some "xml", document.findPrefix id nsPrefix =
            .ok ((visible.find? (·.binding.nsPrefix = nsPrefix)).map
              Declaration.handle)) ∧
          ∀ uri ≠ xmlUri, document.findUri id uri =
            .ok ((visible.find? (·.binding.uri = uri)).map Declaration.handle) := by
  have linked := reachable.linked
  refine ⟨rfl, rfl, linked.binding_xml, fun nodes ended => ?_⟩
  rcases (ancestorsOrSelf_eq_ok_iff linked).mp ended with ⟨inside, way⟩
  have coherent := coherent_scopeAlong linked reachable.orderly nodes
  refine ⟨_, way.inScope linked inside, fun declaration member => ?_,
    Scope.nodup_visible _, fun nsPrefix notXml => ?_, fun uri notXml => ?_⟩
  · exact binding_of_mem_scopeAlong (Scope.mem_declarations_of_mem_visible member)
  · rw [way.findPrefix linked inside, Scope.denoted?, if_neg notXml,
      Scope.find?_visible_prefix]
  · rw [way.findUri linked inside, Scope.taken?, if_neg notXml,
      coherent.find?_visible_uri]

def hiddenPrefix : List Operation :=
  [.appendElement 0 "outer", .declare 1 (some "p") "urn:a", .declare 1 (some "q") "urn:a",
    .appendElement 1 "inner", .declare 2 (some "p") "urn:b"]

theorem searches_agree_hiddenPrefix :
    ∃ document, after hiddenPrefix = some document ∧
      document.ancestorsOrSelf 2 = .ok [2, 1, 0] ∧
      ∃ visible, document.inScope 2 = .ok visible ∧
        (visible.map (·.binding.nsPrefix)).Nodup ∧
        (∀ nsPrefix ≠ some "xml", document.findPrefix 2 nsPrefix =
          .ok ((visible.find? (·.binding.nsPrefix = nsPrefix)).map Declaration.handle)) ∧
        ∀ uri ≠ xmlUri, document.findUri 2 uri =
          .ok ((visible.find? (·.binding.uri = uri)).map Declaration.handle) := by
  have made : ∃ document, after hiddenPrefix = some document ∧
      document.ancestorsOrSelf 2 = .ok [2, 1, 0] := ⟨_, rfl, rfl⟩
  rcases made with ⟨document, made, ended⟩
  rcases (searches_agree (reachable_of_after made) 2).2.2.2 _ ended with
    ⟨visible, listed, _, different, prefixes, uris⟩
  exact ⟨document, made, ended, visible, listed, different, prefixes, uris⟩

end Document

end ResultTree
