import ResultTree.Document.Builder
import ResultTree.Proofs.Transform.Turns

namespace ResultTree

/-! Closing an element resolves its name and those of its attributes in the scope at the
element. Nothing that is written there changes the scope, so all of them are resolved in
the same one. -/

/-- What the prefix of an element denotes in a scope. Without a prefix that is the default
namespace, unless it is empty. -/
def Scope.own? (scope : Scope) : Option String → Option Declaration
  | some nsPrefix => scope.denoted? (some nsPrefix)
  | none => (scope.denoted? none).filter (·.binding.uri ≠ "")

def Scope.unbound? (scope : Scope) (node : NodeId) (prefixes : List String) :
    Option Refusal :=
  (prefixes.find? fun nsPrefix => (scope.denoted? (some nsPrefix)).isNone).map
    (.unboundPrefix node)

namespace Scope

variable {scope : Scope} {node : NodeId}

theorem unbound?_append (front back : List String) :
    scope.unbound? node (front ++ back) =
      (scope.unbound? node front).or (scope.unbound? node back) := by
  rw [unbound?, List.find?_append, Option.map_or]
  rfl

theorem unbound?_eq_none_iff {prefixes : List String} :
    scope.unbound? node prefixes = none ↔
      ∀ nsPrefix ∈ prefixes, ∃ found, scope.denoted? (some nsPrefix) = some found := by
  simp only [unbound?, Option.map_eq_none_iff, List.find?_eq_none,
    Option.isNone_iff_eq_none, ← ne_eq, Option.ne_none_iff_exists']

theorem denoted_of_own {nsPrefix : Option String} {found : Declaration}
    (own : scope.own? nsPrefix = some found) : scope.denoted? nsPrefix = some found := by
  cases nsPrefix with
  | some nsPrefix => exact own
  | none => exact (Option.filter_eq_some_iff.mp own).1

end Scope

namespace Builder

def PendingAttribute.named (scope : Scope) (pending : PendingAttribute) : Named :=
  ⟨pending.name, pending.nsPrefix.bind fun nsPrefix => scope.denoted? (some nsPrefix),
    pending.value⟩

namespace OpenElement

def prefixes (element : OpenElement) : List String :=
  element.nsPrefix.toList ++ element.attributes.filterMap PendingAttribute.nsPrefix

def settled (element : OpenElement) (scope : Scope) (name : String)
    (declarations : List Binding) : Element where
  name
  ns := (scope.own? element.nsPrefix).map Declaration.handle
  declarations
  attributes :=
    (Named.putAll (element.attributes.map (·.named scope))).map Named.toAttribute

end OpenElement

/-! ## Single steps -/

def noteAny (builder : Builder) (refusal? : Option Refusal) : Builder :=
  { builder with refusal := builder.refusal.or refusal? }

variable {builder : Builder} {α : Type}

theorem perform_of {edit : Edit α} {answer : α} {changed : Document}
    (outcome : edit.outcome builder.document = (.ok (.ok answer), changed)) :
    builder.perform edit = .ok { builder with document := changed } := by
  rw [perform, Edit.on_of outcome]
  rfl

theorem perform_of_refused {edit : Edit α} {refusal : Refusal}
    (outcome : edit.outcome builder.document = (.ok (.error refusal), builder.document)) :
    builder.perform edit = .ok (builder.note refusal) := by
  rw [perform, Edit.on_of outcome]
  rfl

/-! ## Closing on a page -/

variable {site : Site} {document : Document} {name : String} {written : Written}

theorem resolve_page (ready : site.Ready document name)
    (here : builder.document = site.page document name written) (nsPrefix : String) :
    builder.resolve site.id nsPrefix =
      .ok (((site.scope written.declarations).denoted? (some nsPrefix)).map
        Declaration.handle,
        builder.noteAny
          ((site.scope written.declarations).unbound? site.id [nsPrefix])) := by
  rw [resolve, here, ready.page_findPrefix written]
  cases denoted : (site.scope written.declarations).denoted? (some nsPrefix) <;>
    simp [Scope.unbound?, denoted, noteAny, note]

theorem defaultNamespace_page (ready : site.Ready document name)
    (here : builder.document = site.page document name written) :
    builder.defaultNamespace site.id =
      .ok (((site.scope written.declarations).own? none).map Declaration.handle) := by
  rw [defaultNamespace, here, ready.page_findPrefix written]
  cases denoted : (site.scope written.declarations).denoted? none with
  | none => simp [Scope.own?, denoted]
  | some found =>
      have known := ready.page_binding written (Site.places_of_denoted denoted)
      by_cases empty : found.binding.uri = "" <;>
        simp [Scope.own?, denoted, known, empty, Option.filter]

theorem settleName_page (ready : site.Ready document name)
    (here : builder.document = site.page document name written) {element : OpenElement}
    (atSite : element.node = site.id) :
    builder.settleName element = .ok
      { builder with
        document := site.page document name
          { written with own := (site.scope written.declarations).own? element.nsPrefix }
        refusal := builder.refusal.or
          ((site.scope written.declarations).unbound? site.id element.nsPrefix.toList)
          } := by
  have set (ns : Option Declaration) :=
    here ▸ @Site.Ready.setNamespace site document name written ready ns
  rw [settleName, atSite]
  cases element.nsPrefix with
  | none =>
      simp only [defaultNamespace_page ready here, Reading.ok_bind]
      rw [perform_of (set _)]
      simp [Scope.unbound?]
  | some nsPrefix =>
      simp only [resolve_page ready here nsPrefix]
      exact @perform_of (builder.noteAny _) _ _ _ _ (set _)

theorem PendingAttribute.places_named {bindings : List Binding}
    {pending : PendingAttribute} {found : Declaration}
    (named : (pending.named (site.scope bindings)).ns = some found) :
    site.Places bindings found := by
  rcases Option.bind_eq_some_iff.mp named with ⟨_, _, denoted⟩
  exact Site.places_of_denoted denoted

theorem settleAttribute_page (ready : site.Ready document name)
    (admits : site.Admits written)
    (here : builder.document = site.page document name written)
    (pending : PendingAttribute) :
    builder.settleAttribute site.id pending = .ok
      { builder with
        document := site.page document name
          { written with
            attributes :=
              Named.put (pending.named (site.scope written.declarations))
                written.attributes }
        refusal := builder.refusal.or
          ((site.scope written.declarations).unbound? site.id pending.nsPrefix.toList)
          } := by
  have set := here ▸ @Site.Ready.setAttribute _ _ _ _ ready admits
    (pending.named (site.scope written.declarations)) fun _ => pending.places_named
  rw [settleAttribute]
  cases prefixed : pending.nsPrefix with
  | none =>
      simp only [PendingAttribute.named, prefixed, Option.bind_none, Option.map_none]
        at set ⊢
      rw [perform_of set]
      simp [Scope.unbound?]
  | some nsPrefix =>
      simp only [PendingAttribute.named, prefixed, Option.bind_some] at set ⊢
      simp only [resolve_page ready here nsPrefix]
      exact @perform_of (builder.noteAny _) _ _ _ _ set

theorem admits_put (admits : site.Admits written) (pending : PendingAttribute) :
    site.Admits { written with
      attributes :=
        Named.put (pending.named (site.scope written.declarations))
          written.attributes } where
  tidy := admits.tidy
  places := by
    intro declaration member
    rcases List.mem_append.mp member with member | member
    · exact admits.own (Option.mem_toList.mp member)
    · rcases List.mem_filterMap.mp member with ⟨named, namedMember, ns⟩
      rcases Named.mem_put namedMember with rfl | namedMember
      · exact pending.places_named ns
      · exact admits.named namedMember ns

theorem settleAttributes_page (ready : site.Ready document name)
    (admits : site.Admits written)
    (here : builder.document = site.page document name written)
    (attributes : List PendingAttribute) :
    attributes.foldlM (settleAttribute site.id) builder = .ok
      { builder with
        document := site.page document name
          { written with
            attributes :=
              (attributes.map (·.named (site.scope written.declarations))).foldl
                (fun present added => Named.put added present) written.attributes }
        refusal := builder.refusal.or
          ((site.scope written.declarations).unbound? site.id
            (attributes.filterMap PendingAttribute.nsPrefix)) } := by
  induction attributes generalizing builder written with
  | nil => simp [← here, Scope.unbound?]
  | cons pending rest induction =>
      rw [List.foldlM_cons, settleAttribute_page ready admits here pending,
        Reading.ok_bind,
        induction (admits_put admits pending) rfl]
      have split : (pending :: rest).filterMap PendingAttribute.nsPrefix =
          pending.nsPrefix.toList ++ rest.filterMap PendingAttribute.nsPrefix := by
        cases prefixed : pending.nsPrefix <;> simp [prefixed]
      rw [split, Scope.unbound?_append, Option.or_assoc]
      rfl

/-- Closing an element resolves all of its names in the scope at the element. -/
theorem settle_page (ready : site.Ready document name) {declarations : List Binding}
    (tidy : Document.Tidy declarations)
    (here : builder.document = site.page document name { declarations })
    {element : OpenElement} (atSite : element.node = site.id) :
    builder.settle element = .ok
      { builder with
        document := builder.document.putElement element.node
          (element.settled (site.scope declarations) name declarations)
        refusal := builder.refusal.or
          ((site.scope declarations).unbound? element.node element.prefixes) } := by
  have admits : site.Admits
      { own := (site.scope declarations).own? element.nsPrefix, declarations } := by
    refine ⟨tidy, fun declaration member => ?_⟩
    rcases List.mem_append.mp member with member | member
    · exact Site.places_of_denoted (Scope.denoted_of_own (Option.mem_toList.mp member))
    · simp at member
  have put := @Site.Ready.put site document name { declarations }
    { own := (site.scope declarations).own? element.nsPrefix
      declarations
      attributes :=
        Named.putAll (element.attributes.map (·.named (site.scope declarations))) }
  rw [settle, settleName_page ready here atSite, Reading.ok_bind, atSite,
    settleAttributes_page ready admits rfl, here, OpenElement.prefixes,
    Scope.unbound?_append, ← Option.or_assoc]
  exact congrArg (fun left => Except.ok (Builder.mk left builder.opened builder.last _))
    put.symm

end Builder

end ResultTree
