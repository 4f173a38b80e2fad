import Mathlib.Data.List.Infix
import ResultTree.Proofs.Document.Bindings
import ResultTree.Proofs.Document.Operation
import ResultTree.Proofs.Transform.Site

namespace ResultTree

/-! How far a list of bindings is declared on a node. Each declaration is asked for what
the node declares by then, and the first refusal ends it all. What is declared in the end
is the longest beginning of the list that could be declared as a whole. -/

structure Longest {α : Type} (property : List α → Prop) (items beginning : List α) :
    Prop where
  begins : beginning <+: items
  holds : property beginning
  others : ∀ other, other <+: items → property other → other <+: beginning

namespace Longest

variable {α : Type} {property later : List α → Prop} {item : α} {items beginning : List α}

theorem nil (holds : property []) : Longest property [] [] :=
  ⟨List.prefix_refl _, holds, fun _ begins _ => begins⟩

theorem of_refused (holds : property []) (refused : ∀ rest, ¬ property (item :: rest)) :
    Longest property (item :: items) [] where
  begins := List.nil_prefix
  holds := holds
  others := by
    intro other begins otherHolds
    rcases List.prefix_cons_iff.mp begins with rfl | ⟨rest, rfl, _⟩
    · exact List.prefix_refl _
    · exact absurd otherHolds (refused rest)

theorem cons (taken : ∀ rest, property (item :: rest) ↔ later rest)
    (longest : Longest later items beginning) :
    Longest property (item :: items) (item :: beginning) where
  begins := List.cons_prefix_cons.mpr ⟨rfl, longest.begins⟩
  holds := (taken beginning).mpr longest.holds
  others := by
    intro other begins otherHolds
    rcases List.prefix_cons_iff.mp begins with rfl | ⟨rest, rfl, restBegins⟩
    · exact List.nil_prefix
    · exact List.cons_prefix_cons.mpr
        ⟨rfl, longest.others rest restBegins ((taken rest).mp otherHolds)⟩

theorem of_empty (empty : ∀ list, property list ↔ list = []) :
    Longest property items [] where
  begins := List.nil_prefix
  holds := (empty []).mpr rfl
  others := fun other _ otherHolds => by rw [(empty other).mp otherHolds]

theorem eq_self (longest : Longest property items beginning) (all : property items) :
    beginning = items :=
  longest.begins.eq_of_length_le (longest.others items (List.prefix_refl _) all).length_le

end Longest

structure Document.AllDeclarable (present added : List Binding) : Prop where
  unreserved : ∀ binding ∈ added, ∀ reserved ∈ Binding.reservedPrefixes,
    binding.nsPrefix ≠ some reserved
  undeclared : ∀ binding ∈ added, ∀ declared ∈ present,
    declared.nsPrefix ≠ binding.nsPrefix
  distinct : (added.map Binding.nsPrefix).Nodup

def Content.Takes : Content → List Binding → Prop
  | .element held, added => Document.AllDeclarable held.declarations added
  | _, added => added = []

def Content.declaring (added : List Binding) : Content → Content
  | .element held => .element { held with declarations := held.declarations ++ added }
  | other => other

def Document.declaringAll (document : Document) (id : NodeId) (added : List Binding) :
    Document :=
  document.modify id fun node => { node with content := node.content.declaring added }

namespace Document

variable {document : Document} {id : NodeId} {element : Element}
  {present added : List Binding} {binding : Binding}

theorem allDeclarable_nil : AllDeclarable present [] := ⟨by simp, by simp, by simp⟩

/-- What the first binding is restated to does not matter to the others, which only must
not have its prefix. -/
theorem allDeclarable_cons_iff (table : AliasTable) :
    AllDeclarable present (binding :: added) ↔
      Declarable present (table.restate binding) ∧
        AllDeclarable (present ++ [table.restate binding]) added := by
  constructor
  · rintro ⟨unreserved, undeclared, distinct⟩
    rw [List.map_cons, List.nodup_cons] at distinct
    refine ⟨⟨unreserved binding (by simp), undeclared binding (by simp)⟩, ?_, ?_,
      distinct.2⟩
    · exact fun other member => unreserved other (List.mem_cons_of_mem _ member)
    · intro other member earlier earlierMember same
      rcases List.mem_append.mp earlierMember with earlierMember | isFirst
      · exact undeclared other (List.mem_cons_of_mem _ member) earlier earlierMember same
      · rw [List.mem_singleton.mp isFirst] at same
        exact distinct.1 (List.mem_map.mpr ⟨other, member, same.symm⟩)
  · rintro ⟨declarable, unreserved, undeclared, distinct⟩
    refine ⟨List.forall_mem_cons.mpr ⟨declarable.notReserved, unreserved⟩,
      List.forall_mem_cons.mpr ⟨declarable.unused,
        fun other member earlier earlierMember =>
          undeclared other member earlier (List.mem_append_left _ earlierMember)⟩, ?_⟩
    refine List.nodup_cons.mpr ⟨fun member => ?_, distinct⟩
    rcases List.mem_map.mp member with ⟨other, otherMember, same⟩
    exact undeclared other otherMember (table.restate binding) (by simp) same.symm

theorem takes_iff_of_other {content : Content}
    (other : ∀ element, content ≠ .element element) (added : List Binding) :
    content.Takes added ↔ added = [] := by
  cases content with
  | element element => exact absurd rfl (other element)
  | _ => exact Iff.rfl

/-! ## A document with more declarations on a node -/

theorem declaringAll_of_element (held : document.content id = .ok (.element element)) :
    document.declaringAll id added =
      document.putElement id { element with declarations :=
        element.declarations ++ added } := by
  rcases content_eq_ok_iff.mp held with ⟨node, found, shape⟩
  apply eq_of_nodes
  intro other
  rw [declaringAll, nodes_modify, nodes_putElement]
  by_cases here : other = id
  · subst here
    simp [found, shape, Content.declaring]
  · cases document.nodes[other]? <;> simp [here]

theorem declaringAll_of_other {content : Content}
    (held : document.content id = .ok content)
    (other : ∀ element, content ≠ .element element) :
    document.declaringAll id added = document := by
  rcases content_eq_ok_iff.mp held with ⟨node, found, rfl⟩
  have same : node.content.declaring added = node.content := by
    cases shape : node.content with
    | element element => exact absurd shape (other element)
    | _ => rfl
  apply eq_of_nodes
  intro id'
  rw [declaringAll, nodes_modify]
  split
  · next here => subst here; simp [found, same]
  · rfl

theorem mapM_binding_declaringAll (held : document.content id = .ok (.element element))
    (added : List Binding) :
    ((List.range' element.declarations.length added.length).map (Handle.mk id)).mapM
        (document.declaringAll id added).binding = .ok added := by
  apply Reading.mapM_of_forall₂
  rw [List.forall₂_iff_get]
  refine ⟨by simp, fun index _ inside => ?_⟩
  rcases content_eq_ok_iff.mp held with ⟨node, found, shape⟩
  refine binding_eq_ok_iff.mpr
    ⟨{ node with content := node.content.declaring added }, ?_, ?_⟩
  · simp [declaringAll, nodes_modify, found]
  · simp only [shape, Content.declaring, Content.declarations, List.get_eq_getElem,
      List.getElem_map, List.getElem_range', Nat.one_mul]
    rw [List.getElem?_append_right (Nat.le_add_right _ _), Nat.add_sub_cancel_left,
      List.getElem?_eq_getElem inside]

end Document

namespace AliasTable

open Document

variable {document : Document} {out : NodeId} {element : Element}
  {bindings : List Binding}

/-- What is declared on an element is the longest beginning that it can declare. -/
theorem outcome_declareAll_of_element (table : AliasTable)
    (held : document.content out = .ok (.element element)) :
    ∃ taken, Longest (AllDeclarable element.declarations) bindings taken ∧
      Edit.outcome (table.declareAll out bindings) document =
        (.ok (.ok ((List.range' element.declarations.length taken.length).map
            (Handle.mk out))),
          document.putElement out { element with
            declarations := element.declarations ++ taken.map table.restate }) := by
  induction bindings generalizing document element with
  | nil =>
      refine ⟨[], .nil allDeclarable_nil, ?_⟩
      simp [declareAll, putElement_self held]
  | cons binding rest induction =>
      by_cases declarable : Declarable element.declarations (table.restate binding)
      · have declared := Edit.outcome_declare_of held declarable
        rcases induction (content_putElement { element with
          declarations := element.declarations ++ [table.restate binding] } held) with
          ⟨taken, longest, result⟩
        refine ⟨binding :: taken, longest.cons fun rest => ?_, ?_⟩
        · rw [allDeclarable_cons_iff table, and_iff_right declarable]
        · have attempted : Edit.outcome (Edit.attempt (Edit.declare out binding.nsPrefix
              (table.target binding.uri))) document =
              (.ok (.ok (some ⟨out, element.declarations.length⟩)),
                document.putElement out { element with
                  declarations := element.declarations ++ [table.restate binding] }) := by
            rw [Edit.outcome_attempt, declared]
            rfl
          rw [declareAll, Edit.outcome_bind_of attempted]
          refine (Edit.outcome_bind_of result).trans ?_
          simp [putElement_putElement, List.range'_succ]
      · refine ⟨[], .of_refused allDeclarable_nil fun rest all => ?_, ?_⟩
        · exact declarable ((allDeclarable_cons_iff table).mp all).1
        · rw [declareAll,
            Edit.outcome_bind_of (Edit.outcome_attempt_declare held declarable)]
          simp [putElement_self held]

theorem outcome_declareAll_of_other (table : AliasTable) {content : Content}
    (held : document.content out = .ok content)
    (other : ∀ element, content ≠ .element element) :
    Edit.outcome (table.declareAll out bindings) document = (.ok (.ok []), document) := by
  cases bindings with
  | nil => rfl
  | cons binding rest =>
      have refused := @Edit.outcome_attempt_declare_of _ _ _ binding.nsPrefix
        (table.target binding.uri) held fun element same => absurd same (other element)
      rw [declareAll, Edit.outcome_bind_of refused, Edit.outcome_pure]

/-- Of the bindings that are not of the transformation namespace, the longest beginning is
declared on a node that it can take, through the aliases. Nothing else is changed, and the
answer are the handles of the new declarations. -/
theorem longest_copyDeclarations (table : AliasTable) (bindings : List Binding)
    (inside : out < document.size) :
    ∃ content taken handles,
      document.content out = .ok content ∧
        Longest content.Takes (bindings.filter (·.uri ≠ transformUri)) taken ∧
        (table.copyDeclarations out bindings).on document =
          .ok (.ok handles, document.declaringAll out (taken.map table.restate)) ∧
        handles =
          (List.range' content.declarations.length taken.length).map (Handle.mk out) ∧
        handles.mapM (document.declaringAll out (taken.map table.restate)).binding =
          .ok (taken.map table.restate) := by
  rcases exists_node_iff.mpr inside with ⟨node, found⟩
  have held := content_of found
  by_cases isElement : ∃ element, node.content = .element element
  · rcases isElement with ⟨element, shape⟩
    rw [shape] at held
    rcases table.outcome_declareAll_of_element held with ⟨taken, longest, result⟩
    refine ⟨_, taken, _, held, longest, ?_, rfl, ?_⟩
    · rw [declaringAll_of_element held]
      exact Edit.on_of result
    · have denoted := mapM_binding_declaringAll held (taken.map table.restate)
      rwa [List.length_map] at denoted
  · have other : ∀ element, node.content ≠ .element element := fun element shape =>
      isElement ⟨element, shape⟩
    refine ⟨_, [], [], held, .of_empty (takes_iff_of_other other), ?_, rfl, rfl⟩
    rw [declaringAll_of_other held other]
    exact Edit.on_of (table.outcome_declareAll_of_other held other)

def renamedDefault : AliasTable := empty.declare "urn:b" ⟨"urn:e", 1⟩

def repeatedPrefix : List Binding :=
  [⟨some "a", "urn:a"⟩, ⟨some "xsl", transformUri⟩, ⟨none, "urn:b"⟩, ⟨some "a", "urn:c"⟩,
    ⟨some "d", "urn:d"⟩]

theorem longest_copyDeclarations_repeatedPrefix :
    ∃ document changed content taken handles,
      Document.after [.appendElement 0 "host", .declare 1 (some "p") "urn:x"] =
        some document ∧
        1 < document.size ∧ document.content 1 = .ok content ∧
        Longest content.Takes (repeatedPrefix.filter (·.uri ≠ transformUri)) taken ∧
        (renamedDefault.copyDeclarations 1 repeatedPrefix).on document =
          .ok (.ok handles, changed) ∧
        changed = document.declaringAll 1 (taken.map renamedDefault.restate) ∧
        handles = [⟨1, 1⟩, ⟨1, 2⟩] ∧
        changed.declarations 1 =
          .ok [⟨some "p", "urn:x"⟩, ⟨some "a", "urn:a"⟩, ⟨none, "urn:e"⟩] := by
  have made : ∃ document,
      Document.after [.appendElement 0 "host", .declare 1 (some "p") "urn:x"] =
        some document ∧
        1 < document.size := ⟨_, rfl, by decide⟩
  rcases made with ⟨document, made, inside⟩
  rcases longest_copyDeclarations renamedDefault repeatedPrefix inside with
    ⟨content, taken, handles, held, longest, copied, _, _⟩
  generalize left : document.declaringAll 1 (taken.map renamedDefault.restate) = changed
    at copied
  have answered : handles = [⟨1, 1⟩, ⟨1, 2⟩] ∧ changed.declarations 1 =
      .ok [⟨some "p", "urn:x"⟩, ⟨some "a", "urn:a"⟩, ⟨none, "urn:e"⟩] := by
    clear held longest left inside
    cases made
    cases copied
    exact ⟨rfl, rfl⟩
  exact ⟨document, changed, content, taken, handles, made, inside, held, longest, copied,
    left.symm, answered⟩

end AliasTable

end ResultTree
