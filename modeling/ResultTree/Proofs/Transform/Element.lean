import ResultTree.Proofs.Document.Handles
import ResultTree.Proofs.Transform.Writing

namespace ResultTree

/-! Writing an element: its declarations, then its own name, then its attributes. -/

namespace AliasTable

variable {source : Document} {parent : NodeId}

theorem admits_named {site : Site} {table : AliasTable} {ns : Option Handle}
    {own : Option Declaration} {cloned declarations : List Binding}
    (tidy : Document.Tidy cloned)
    (named :
      source.StandsIn (table.Resolves site cloned none) cloned ns own declarations) :
    site.Admits { own, declarations } where
  tidy := named.tidy tidy fun resolved => resolved.tidy tidy
  places := by
    intro declaration member
    have held : own = some declaration := by simpa [Written.names] using member
    subst held
    cases named with
    | found _ resolved =>
        rcases resolved.own_or_places with absurdity | places
        · cases absurdity
        · exact places

theorem admits_undeclareDefault {site : Site} {declarations : List Binding}
    (tidy : Document.Tidy declarations) :
    site.Admits { declarations := site.undeclareDefault declarations } where
  tidy := by
    rcases Site.undeclareDefault_cases tidy with same | ⟨declarable, same⟩
    · rwa [same]
    · rw [same]
      exact tidy.declare declarable
  places := by simp [Written.names]

def writeElement (table : AliasTable) (source : Document) (element : Element)
    (copy : NodeId) : Edit Unit := do
  let _ ← table.copyDeclarations copy element.declarations
  let ns ← standIn source (table.resolve · copy) element.ns
  Edit.setNamespace copy ns
  if ns = none then undeclareDefault copy
  element.attributes.forM (table.copyAttribute source copy)

theorem copyElement_eq (table : AliasTable) (source : Document) (element : Element)
    (parent : NodeId) :
    table.copyElement source element parent = (do
      let copy ← Edit.appendElement parent element.name
      table.writeElement source element copy
      return copy) := by
  simp only [copyElement, writeElement, bind_assoc]
  refine bind_congr fun copy => bind_congr fun _ => bind_congr fun ns =>
    bind_congr fun _ => ?_
  split <;> simp only [bind_assoc]

end AliasTable

namespace Site.Ready

variable {site : Site} {document source : Document} {name : String} {held : Element}

theorem writeElement (ready : site.Ready document name) (table : AliasTable)
    (heldTidy : Document.Tidy held.declarations) (known : source.Known held) :
    ∃ written, site.Admits written ∧ table.Copies source site held written ∧
      Edit.outcome (table.writeElement source held site.id) document =
        (.ok (.ok ()), site.page document name written) := by
  have attributesKnown : ∀ named ∈ held.attributes, ∀ handle, named.ns = some handle →
      ∃ binding, source.binding handle = .ok binding := fun _ member handle ns =>
    known handle (Element.mem_handles_of_attribute member ns)
  have tidy := heldTidy.cloned table
  have fresh : site.Admits { declarations := table.cloned held.declarations } :=
    ⟨tidy, by simp [Written.names]⟩
  rcases ready.copyDeclarations table heldTidy with ⟨handles, cloned⟩
  rcases outcome_standIn (ready.resolve fresh table)
    (fun handle own => known handle (Element.own_mem_handles own)) with
    ⟨own, declarations, named, resolved⟩
  have settled := @setNamespace _ _ _ { declarations } ready own
  rw [ready.page_fresh] at cloned
  rw [AliasTable.writeElement, Edit.outcome_bind_of cloned, Edit.outcome_bind_of resolved,
    Edit.outcome_bind_of settled]
  cases own with
  | none =>
      have undeclared := ready.undeclareDefault (AliasTable.admits_named tidy named)
      rcases ready.copyAttributes table (AliasTable.admits_undeclareDefault
        (named.tidy tidy fun resolved => resolved.tidy tidy)) attributesKnown with
        ⟨written, writes, admits, result⟩
      refine ⟨written, admits, .copy named writes, ?_⟩
      simp only [Option.map_none, if_true]
      exact (Edit.outcome_bind_of undeclared).trans result
  | some declaration =>
      rcases ready.copyAttributes table (AliasTable.admits_named tidy named)
        attributesKnown with
        ⟨written, writes, admits, result⟩
      exact ⟨written, admits, .copy named writes, result⟩

end Site.Ready

end ResultTree
