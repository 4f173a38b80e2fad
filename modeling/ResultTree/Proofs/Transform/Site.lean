import Mathlib.Data.List.Nodup
import ResultTree.Proofs.Document.Scope
import ResultTree.Transform.Copy

namespace ResultTree

/-! Copying an element, seen from the place where the copy stands. All that bears on
the names of a copy is what it declares so far and what is in scope above it. What
copying does to these is said by relations that know nothing of documents, one for
each function, with a case for each way in which it can go. -/

/-- The place of an element: its address and the declarations in scope above it. -/
structure Site where
  id : NodeId
  above : List Declaration

structure Named where
  name : String
  ns : Option Declaration
  value : String

/-- What has been written of an element, with the declarations of its names. -/
structure Written where
  own : Option Declaration := none
  declarations : List Binding := []
  attributes : List Named := []

namespace Named

def toAttribute (named : Named) : Attribute :=
  ⟨named.name, named.ns.map Declaration.handle, named.value⟩

@[simp] theorem toAttribute_name (named : Named) :
    named.toAttribute.name = named.name := rfl

def uri (named : Named) : Option String := named.ns.map (·.binding.uri)

def put (added : Named) : List Named → List Named
  | [] => [added]
  | present :: rest =>
      if present.name = added.name ∧ present.uri = added.uri then added :: rest
      else present :: put added rest

end Named

namespace Written

def element (written : Written) (name : String) : Element where
  name
  ns := written.own.map Declaration.handle
  declarations := written.declarations
  attributes := written.attributes.map Named.toAttribute

def names (written : Written) : List Declaration :=
  written.own.toList ++ written.attributes.filterMap Named.ns

end Written

namespace Site

def declared (site : Site) (bindings : List Binding) : List Declaration :=
  bindings.mapIdx fun index binding => ⟨⟨site.id, index⟩, binding⟩

def added (site : Site) (bindings : List Binding) (binding : Binding) : Declaration :=
  ⟨⟨site.id, bindings.length⟩, binding⟩

def outer (site : Site) : Scope := ⟨site.above, false⟩

def scope (site : Site) (bindings : List Binding) : Scope :=
  ⟨site.declared bindings ++ site.above, false⟩

inductive Declares (site : Site) (present : List Binding) (binding : Binding) :
    Option Declaration → List Binding → Prop
  | declared (declarable : Document.Declarable present binding) :
      Declares site present binding (some (site.added present binding))
        (present ++ [binding])
  | refused (undeclarable : ¬ Document.Declarable present binding) :
      Declares site present binding none present

def undeclareDefault (site : Site) (present : List Binding) : List Binding :=
  match (site.scope present).denoted? none with
  | none => present
  | some inherited =>
      if inherited.handle.owner = site.id ∨ inherited.binding.uri = "" then present
      else present ++ [⟨none, ""⟩]

end Site

inductive Document.StandsIn (source : Document)
    (resolves : Binding → Option Declaration → List Binding → Prop)
    (present : List Binding) :
    Option Handle → Option Declaration → List Binding → Prop
  | absent : StandsIn source resolves present none none present
  | found {handle : Handle} {wanted : Binding} {answer : Option Declaration}
      {changed : List Binding} (known : source.binding handle = .ok wanted)
      (resolved : resolves wanted answer changed) :
      StandsIn source resolves present (some handle) answer changed

namespace AliasTable

def restate (table : AliasTable) (binding : Binding) : Binding :=
  ⟨binding.nsPrefix, table.target binding.uri⟩

def cloned (table : AliasTable) (bindings : List Binding) : List Binding :=
  (bindings.filter (·.uri ≠ transformUri)).map table.restate

/-- What stands in for the binding `wanted` at an element with the namespace `own`. -/
inductive Resolves (table : AliasTable) (site : Site) (present : List Binding)
    (own : Option Declaration) (wanted : Binding) :
    Option Declaration → List Binding → Prop
  | empty (nothing : wanted.uri = "") :
      Resolves table site present own wanted none present
  | own {declaration : Declaration} (something : wanted.uri ≠ "")
      (held : own = some declaration) (same : declaration.binding.uri = wanted.uri) :
      Resolves table site present own wanted own present
  | taken {declaration : Declaration} (something : wanted.uri ≠ "")
      (taken : (site.scope present).taken? (table.target wanted.uri) = some declaration)
      (other : own.map (·.binding.uri) ≠ some wanted.uri) :
      Resolves table site present own wanted (some declaration) present
  | missing {answer : Option Declaration} {changed : List Binding}
      (something : wanted.uri ≠ "")
      (missing : (site.scope present).taken? (table.target wanted.uri) = none)
      (declares : site.Declares present (table.restate wanted) answer changed)
      (other : own.map (·.binding.uri) ≠ some wanted.uri) :
      Resolves table site present own wanted answer changed

def prefixed? (scope : Scope) (uri : String) : Option Declaration :=
  scope.visible.find? fun declaration =>
    declaration.binding.nsPrefix.isSome && declaration.binding.uri = uri

inductive ResolvesAttribute (table : AliasTable) (site : Site) (present : List Binding)
    (own : Option Declaration) (wanted : Binding) :
    Option Declaration → List Binding → Prop
  | nothing {changed : List Binding}
      (resolved : table.Resolves site present own wanted none changed) :
      ResolvesAttribute table site present own wanted none changed
  | named {declaration : Declaration} {changed : List Binding}
      (resolved : table.Resolves site present own wanted (some declaration) changed)
      (named : declaration.binding.nsPrefix ≠ none) :
      ResolvesAttribute table site present own wanted (some declaration) changed
  | replaced {bare declaration : Declaration} {changed : List Binding}
      (resolved : table.Resolves site present own wanted (some bare) changed)
      (unnamed : bare.binding.nsPrefix = none)
      (visible : prefixed? (site.scope changed) bare.binding.uri = some declaration) :
      ResolvesAttribute table site present own wanted (some declaration) changed
  | invented {bare : Declaration} {changed left : List Binding} {nsPrefix : String}
      {answer : Option Declaration}
      (resolved : table.Resolves site present own wanted (some bare) changed)
      (unnamed : bare.binding.nsPrefix = none)
      (missing : prefixed? (site.scope changed) bare.binding.uri = none)
      (free : freePrefix? ((site.scope changed).visible.map (·.binding.nsPrefix))
        (wanted.nsPrefix.getD "ns") = some nsPrefix)
      (declares : site.Declares changed ⟨some nsPrefix, bare.binding.uri⟩ answer left) :
      ResolvesAttribute table site present own wanted answer left

inductive Writes (table : AliasTable) (source : Document) (site : Site) :
    List Attribute → Written → Written → Prop
  | done (written : Written) : Writes table source site [] written written
  | next {held : Attribute} {rest : List Attribute} {written last : Written}
      {ns : Option Declaration} {declarations : List Binding}
      (named : source.StandsIn
        (table.ResolvesAttribute site written.declarations written.own)
        written.declarations held.ns ns declarations)
      (writes : Writes table source site rest { written with
        declarations, attributes :=
          Named.put ⟨held.name, ns, held.value⟩ written.attributes } last) :
      Writes table source site (held :: rest) written last

inductive Copies (table : AliasTable) (source : Document) (site : Site) (held : Element) :
    Written → Prop
  | copy {own : Option Declaration} {declarations : List Binding} {written : Written}
      (named : source.StandsIn (table.Resolves site (table.cloned held.declarations) none)
        (table.cloned held.declarations) held.ns own declarations)
      (writes : table.Writes source site held.attributes
        { own, declarations := if own = none then site.undeclareDefault declarations
            else declarations }
        written) :
      Copies table source site held written

end AliasTable

/-! ## The scope at a site -/

namespace Site

variable {site : Site} {bindings : List Binding} {nsPrefix : Option String}
  {found : Declaration}

theorem declared_append (bindings : List Binding) (binding : Binding) :
    site.declared (bindings ++ [binding]) =
      site.declared bindings ++ [site.added bindings binding] :=
  List.mapIdx_concat

theorem mem_declared_iff : found ∈ site.declared bindings ↔
    found.handle.owner = site.id ∧
    bindings[found.handle.index]? = some found.binding := by
  rcases found with ⟨⟨owner, index⟩, binding⟩
  simp only [declared, List.mem_mapIdx, Declaration.mk.injEq, Handle.mk.injEq,
    List.getElem?_eq_some_iff]
  constructor
  · rintro ⟨index, inside, ⟨rfl, rfl⟩, rfl⟩
    exact ⟨rfl, inside, rfl⟩
  · rintro ⟨rfl, inside, rfl⟩
    exact ⟨index, inside, ⟨rfl, rfl⟩, rfl⟩

theorem map_binding_declared (bindings : List Binding) :
    (site.declared bindings).map Declaration.binding = bindings :=
  List.ext_getElem (by simp [declared]) (by simp [declared])

structure Sound (site : Site) : Prop where
  coherent : site.outer.Coherent
  elsewhere : ∀ declaration ∈ site.above, declaration.handle.owner ≠ site.id
  notRoot : site.id ≠ Document.root

theorem Sound.elsewhere_of_denoted (sound : site.Sound)
    (denoted : site.outer.denoted? nsPrefix = some found) :
    found.handle.owner ≠ site.id := by
  rcases Scope.mem_or_xml_of_denoted denoted with rfl | above
  · exact Ne.symm sound.notRoot
  · exact sound.elsewhere found above

theorem Sound.coherent_scope (sound : site.Sound) (tidy : Document.Tidy bindings) :
    (site.scope bindings).Coherent where
  unique := by
    intro left leftMember right rightMember same
    rcases List.mem_append.mp leftMember with leftMember | leftMember <;>
      rcases List.mem_append.mp rightMember with rightMember | rightMember
    · have leftKnown := (mem_declared_iff.mp leftMember).2
      have rightKnown := (mem_declared_iff.mp rightMember).2
      rw [same, rightKnown] at leftKnown
      cases left
      cases right
      cases same
      cases leftKnown
      rfl
    · exact absurd (same ▸ (mem_declared_iff.mp leftMember).1)
        (sound.elsewhere right rightMember)
    · exact absurd (same ▸ (mem_declared_iff.mp rightMember).1)
        (sound.elsewhere left leftMember)
    · exact sound.coherent.unique left leftMember right rightMember same
  xml := by
    intro declaration member isXml
    rcases List.mem_append.mp member with member | member
    · have held := List.mem_of_getElem? (mem_declared_iff.mp member).2
      exact absurd isXml (tidy.unreserved _ held "xml" (by decide))
    · exact sound.coherent.xml declaration member isXml
  xmlns := by
    intro declaration member
    rcases List.mem_append.mp member with member | member
    · have held := List.mem_of_getElem? (mem_declared_iff.mp member).2
      exact tidy.unreserved _ held "xmlns" (by decide)
    · exact sound.coherent.xmlns declaration member

theorem find?_declared_eq_none_iff :
    (site.declared bindings).find? (·.binding.nsPrefix = nsPrefix) = none ↔
      ∀ binding ∈ bindings, binding.nsPrefix ≠ nsPrefix := by
  simp only [List.find?_eq_none, decide_eq_true_eq]
  constructor
  · intro none binding member
    rw [← @map_binding_declared site bindings] at member
    rcases List.mem_map.mp member with ⟨declaration, declarationMember, rfl⟩
    exact none declaration declarationMember
  · intro none declaration member
    exact none _ (List.mem_of_getElem? (mem_declared_iff.mp member).2)

theorem denoted_scope (notXml : nsPrefix ≠ some "xml") :
    (site.scope bindings).denoted? nsPrefix =
      ((site.declared bindings).find? (·.binding.nsPrefix = nsPrefix)).or
        (site.outer.denoted? nsPrefix) := by
  simp only [Scope.denoted?, notXml, if_false, scope, outer, List.find?_append]

theorem denoted_scope_of_undeclared
    (undeclared : ∀ binding ∈ bindings, binding.nsPrefix ≠ nsPrefix) :
    (site.scope bindings).denoted? nsPrefix = site.outer.denoted? nsPrefix := by
  by_cases isXml : nsPrefix = some "xml"
  · subst isXml
    rfl
  · rw [denoted_scope isXml, find?_declared_eq_none_iff.mpr undeclared, Option.none_or]

theorem denoted_scope_of_mem (tidy : Document.Tidy bindings)
    (member : found ∈ site.declared bindings) :
    (site.scope bindings).denoted? found.binding.nsPrefix = some found := by
  have held := List.mem_of_getElem? (mem_declared_iff.mp member).2
  have notXml : found.binding.nsPrefix ≠ some "xml" :=
    tidy.unreserved _ held "xml" (by decide)
  rw [denoted_scope notXml]
  have first : (site.declared bindings).find?
      (·.binding.nsPrefix = found.binding.nsPrefix) = some found := by
    have different : ((site.declared bindings).map (·.binding.nsPrefix)).Nodup := by
      have prefixes := tidy.prefixes
      rw [← @map_binding_declared site bindings, List.map_map] at prefixes
      exact prefixes
    have some : ∃ other, (site.declared bindings).find?
        (·.binding.nsPrefix = found.binding.nsPrefix) = .some other :=
      Option.isSome_iff_exists.mp (List.find?_isSome.mpr ⟨found, member, by simp⟩)
    rcases some with ⟨other, foundFirst⟩
    have same : other.binding.nsPrefix = found.binding.nsPrefix := by
      simpa using List.find?_some foundFirst
    rw [foundFirst,
      List.inj_on_of_nodup_map different (List.mem_of_find?_eq_some foundFirst)
      member same]
  rw [first, Option.some_or]

/-- What a prefix denotes at a site is declared there, or denoted above by a prefix that
the site does not declare. -/
theorem denoted_scope_iff (tidy : Document.Tidy bindings) :
    (site.scope bindings).denoted? nsPrefix = some found ↔
      found ∈ site.declared bindings ∧ found.binding.nsPrefix = nsPrefix ∨
        site.outer.denoted? nsPrefix = some found ∧
          ∀ binding ∈ bindings, binding.nsPrefix ≠ nsPrefix := by
  constructor
  · intro denoted
    have own := Scope.prefix_of_denoted denoted
    by_cases declared : ∀ binding ∈ bindings, binding.nsPrefix ≠ nsPrefix
    · rw [denoted_scope_of_undeclared declared] at denoted
      exact .inr ⟨denoted, declared⟩
    · have notXml : nsPrefix ≠ some "xml" := by
        intro isXml
        exact declared fun binding member =>
          isXml ▸ tidy.unreserved binding member "xml" (by decide)
      rw [denoted_scope notXml] at denoted
      cases first : (site.declared bindings).find? (·.binding.nsPrefix = nsPrefix) with
      | none => exact absurd (find?_declared_eq_none_iff.mp first) declared
      | some declaration =>
          rw [first, Option.some_or] at denoted
          cases denoted
          exact .inl ⟨List.mem_of_find?_eq_some first, own⟩
  · rintro (⟨member, rfl⟩ | ⟨denoted, undeclared⟩)
    · exact denoted_scope_of_mem tidy member
    · rw [denoted_scope_of_undeclared undeclared, denoted]

theorem uri_ne_of_missing (tidy : Document.Tidy bindings) {uri : String}
    (missing : (site.scope bindings).taken? uri = none) {declared : Binding}
    (member : declared ∈ bindings) : declared.uri ≠ uri := by
  rintro rfl
  rw [← @map_binding_declared site bindings] at member
  rcases List.mem_map.mp member with ⟨declaration, declarationMember, rfl⟩
  rcases Scope.exists_taken_of_denoted (denoted_scope_of_mem tidy declarationMember) with
    ⟨taken, found⟩
  cases found.symm.trans missing

end Site

end ResultTree
