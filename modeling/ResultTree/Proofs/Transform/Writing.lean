import ResultTree.Proofs.Transform.Cloning
import ResultTree.Proofs.Transform.Page

namespace ResultTree

/-! Each edit that takes part in copying an element is carried out on a page, always has
an answer, and turns to the page that its relation names. -/

theorem Named.mem_put {added named : Named} {attributes : List Named}
    (member : named ∈ Named.put added attributes) :
    named = added ∨ named ∈ attributes := by
  induction attributes with
  | nil => exact .inl (List.mem_singleton.mp member)
  | cons present rest induction =>
      unfold put at member
      split at member
      · rcases List.mem_cons.mp member with same | member
        · exact .inl same
        · exact .inr (List.mem_cons_of_mem _ member)
      · rcases List.mem_cons.mp member with same | member
        · exact .inr (same ▸ List.mem_cons_self)
        · rcases induction member with same | member
          · exact .inl same
          · exact .inr (List.mem_cons_of_mem _ member)

theorem Named.put_eq_append {added : Named} {attributes : List Named}
    (different : ∀ present ∈ attributes,
      ¬ (present.name = added.name ∧ present.uri = added.uri)) :
    Named.put added attributes = attributes ++ [added] := by
  induction attributes with
  | nil => rfl
  | cons present rest induction =>
      rw [Named.put, if_neg (different present (by simp)),
        induction fun other member => different other (List.mem_cons_of_mem _ member)]
      rfl

theorem Document.assign_toAttribute {document : Document} (added : Named)
    {attributes : List Named}
    (known : ∀ named ∈ attributes, document.uri? named.toAttribute.ns = .ok named.uri) :
    document.assign added.toAttribute added.uri (attributes.map Named.toAttribute) =
      .ok ((Named.put added attributes).map Named.toAttribute) := by
  induction attributes with
  | nil => rfl
  | cons present rest induction =>
      have rest := induction fun named member =>
        known named (List.mem_cons_of_mem _ member)
      have own := known present (by simp)
      simp only [List.map_cons, assign, Named.put, Named.toAttribute_name, own,
        Reading.ok_bind]
      by_cases sameName : present.name = added.name
      · by_cases sameUri : present.uri = added.uri
        · simp [sameName, sameUri]
        · simp [sameName, sameUri, rest]
      · simp [sameName, rest]

theorem Document.Tidy.allDeclarable {present rest : List Binding} (table : AliasTable)
    (tidy : Document.Tidy (present ++ rest.map table.restate)) :
    Document.AllDeclarable present rest := by
  have prefixes := tidy.prefixes
  have same : (rest.map table.restate).map Binding.nsPrefix =
      rest.map Binding.nsPrefix := by
    simp [AliasTable.restate]
  rw [List.map_append, same] at prefixes
  refine ⟨fun binding member => ?_, fun binding member declared earlier equal => ?_,
    prefixes.of_append_right⟩
  · exact tidy.unreserved (table.restate binding)
      (List.mem_append_right _ (List.mem_map_of_mem member))
  · exact List.disjoint_of_nodup_append prefixes (List.mem_map_of_mem earlier)
      (equal ▸ List.mem_map_of_mem member)

theorem Document.Tidy.cloned {bindings : List Binding} (tidy : Document.Tidy bindings)
    (table : AliasTable) : Document.Tidy (table.cloned bindings) where
  prefixes := by
    have same : (table.cloned bindings).map Binding.nsPrefix =
        (bindings.filter (·.uri ≠ transformUri)).map Binding.nsPrefix := by
      simp [AliasTable.cloned, AliasTable.restate]
    rw [same]
    exact tidy.prefixes.sublist (List.filter_sublist.map _)
  unreserved := by
    intro declared member
    rcases List.mem_map.mp member with ⟨binding, bindingMember, rfl⟩
    exact tidy.unreserved binding (List.mem_filter.mp bindingMember).1

namespace Site

variable {site : Site} {document source : Document} {name : String} {written : Written}

theorem Admits.own (admits : site.Admits written) {declaration : Declaration}
    (own : written.own = some declaration) :
    site.Places written.declarations declaration :=
  admits.places declaration (by simp [Written.names, own])

theorem Admits.named (admits : site.Admits written) {named : Named}
    {declaration : Declaration} (member : named ∈ written.attributes)
    (ns : named.ns = some declaration) :
    site.Places written.declarations declaration :=
  admits.places declaration
    (List.mem_append_right _ (List.mem_filterMap.mpr ⟨named, member, ns⟩))

theorem Admits.resolved (admits : site.Admits written) {table : AliasTable}
    {wanted : Binding} {found : Declaration} {changed : List Binding}
    (resolved :
      table.Resolves site written.declarations written.own wanted (some found) changed) :
    site.Places changed found := by
  rcases resolved.own_or_places with own | places
  · exact (admits.own own).mono resolved.longer
  · exact places

theorem outcome_standIn {resolves : Binding → Option Declaration → List Binding → Prop}
    {resolve : Binding → Edit (Option Handle)}
    (carried : ∀ wanted, ∃ answer declarations, resolves wanted answer declarations ∧
      Edit.outcome (resolve wanted) (site.page document name written) =
        (.ok (.ok (answer.map Declaration.handle)),
          site.page document name { written with declarations })) {ns : Option Handle}
    (known : ∀ handle, ns = some handle →
      ∃ binding, source.binding handle = .ok binding) :
    ∃ answer declarations,
      source.StandsIn resolves written.declarations ns answer declarations ∧
      Edit.outcome (AliasTable.standIn source resolve ns)
        (site.page document name written) =
        (.ok (.ok (answer.map Declaration.handle)),
          site.page document name { written with declarations }) := by
  cases ns with
  | none => exact ⟨none, _, .absent, rfl⟩
  | some handle =>
      rcases known handle rfl with ⟨wanted, denoted⟩
      rcases carried wanted with ⟨answer, declarations, resolved, result⟩
      refine ⟨answer, declarations, .found denoted resolved, ?_⟩
      rw [AliasTable.standIn, Edit.bind_read_of denoted, result]

namespace Ready

theorem page_ownNamespace? (ready : site.Ready document name) (written : Written) :
    (site.page document name written).ownNamespace? site.id =
      .ok (written.own.map Declaration.handle) := by
  rcases Document.content_eq_ok_iff.mp (ready.page_held written) with
    ⟨node, found, shape⟩
  rw [Document.ownNamespace?_of found, shape]
  rfl

theorem page_isElement (ready : site.Ready document name) (written : Written) :
    (site.page document name written).isElement site.id = .ok true := by
  rcases Document.content_eq_ok_iff.mp (ready.page_held written) with
    ⟨node, found, shape⟩
  rw [Document.isElement_of found, shape]
  rfl

theorem resolve (ready : site.Ready document name) (admits : site.Admits written)
    (table : AliasTable) (wanted : Binding) :
    ∃ answer declarations,
      table.Resolves site written.declarations written.own wanted answer declarations ∧
      Edit.outcome (table.resolve wanted site.id) (site.page document name written) =
        (.ok (.ok (answer.map Declaration.handle)),
          site.page document name { written with declarations }) := by
  by_cases nothing : wanted.uri = ""
  · refine ⟨none, _, .empty nothing, ?_⟩
    simp [AliasTable.resolve, nothing]
  · have ownUri := ready.page_uri? written fun _ => admits.own
    simp only [AliasTable.resolve, nothing, if_false]
    rw [Edit.bind_get, Edit.bind_read_of (ready.page_ownNamespace? written),
      Edit.bind_read_of ownUri]
    by_cases same : written.own.map (·.binding.uri) = some wanted.uri
    · rcases Option.map_eq_some_iff.mp same with ⟨declaration, held, sameUri⟩
      refine ⟨written.own, _, .own nothing held sameUri, ?_⟩
      rw [if_pos same]
      rfl
    · rw [if_neg same, Edit.bind_read_of (ready.page_findUri written _)]
      cases taken :
        (site.scope written.declarations).taken? (table.target wanted.uri) with
      | some declaration => exact ⟨some declaration, _, .taken nothing taken same, rfl⟩
      | none =>
          rcases ready.attempt_declare written wanted.nsPrefix
            (table.target wanted.uri) with
            ⟨answer, declarations, declares, result⟩
          refine ⟨answer, declarations, .missing nothing taken declares same, ?_⟩
          simp only [Option.map_none]
          rw [Edit.bind_read_of (ready.page_isElement written)]
          exact result

theorem resolveAttribute (ready : site.Ready document name) (admits : site.Admits written)
    (table : AliasTable) (wanted : Binding) :
    ∃ answer declarations,
      table.ResolvesAttribute site written.declarations written.own wanted answer
      declarations ∧
      Edit.outcome (table.resolveAttribute wanted site.id)
        (site.page document name written) =
        (.ok (.ok (answer.map Declaration.handle)),
          site.page document name { written with declarations }) := by
  rcases ready.resolve admits table wanted with ⟨answer, declarations, resolved, result⟩
  rw [AliasTable.resolveAttribute, Edit.outcome_bind_of result]
  cases answer with
  | none => exact ⟨none, declarations, .nothing resolved, rfl⟩
  | some found =>
      have known :=
        ready.page_binding { written with declarations } (admits.resolved resolved)
      simp only [Option.map_some]
      rw [Edit.bind_get, Edit.bind_read_of known]
      cases own : found.binding.nsPrefix with
      | some nsPrefix =>
          exact ⟨some found, declarations, .named resolved (by simp [own]), rfl⟩
      | none =>
          simp only [Option.isSome_none, Bool.false_eq_true, if_false]
          rw [Edit.bind_read_of (ready.page_inScope _)]
          cases prefixed :
            AliasTable.prefixed? (site.scope declarations) found.binding.uri with
          | some declaration =>
              refine ⟨some declaration, declarations, .replaced resolved own prefixed, ?_⟩
              unfold AliasTable.prefixed? at prefixed
              simp only [prefixed]
              rfl
          | none =>
              rcases exists_freePrefix
                ((site.scope declarations).visible.map (·.binding.nsPrefix))
                (wanted.nsPrefix.getD "ns") with ⟨nsPrefix, free⟩
              rcases ready.attempt_declare { written with declarations } (some nsPrefix)
                found.binding.uri with ⟨answer, left, declares, made⟩
              refine ⟨answer, left, .invented resolved own prefixed free declares, ?_⟩
              unfold AliasTable.prefixed? at prefixed
              simp only [prefixed, free]
              exact made

theorem setAttribute (ready : site.Ready document name) (admits : site.Admits written)
    {added : Named}
    (places : ∀ declaration, added.ns = some declaration →
      site.Places written.declarations declaration) :
    Edit.outcome
        (Edit.setAttribute site.id added.name (added.ns.map Declaration.handle)
          added.value) (site.page document name written) =
      (.ok (.ok ()), site.page document name
        { written with attributes := Named.put added written.attributes }) := by
  have known := ready.page_uri? written places
  have assigned := (site.page document name written).assign_toAttribute added
    fun named (member : named ∈ written.attributes) =>
      ready.page_uri? written fun _ ns => admits.named member ns
  rw [Edit.outcome_setAttribute_of (ready.page_held written) known assigned]
  exact Prod.ext rfl (@put site document name written
    { written with attributes := Named.put added written.attributes })

theorem setNamespace (ready : site.Ready document name) (own : Option Declaration) :
    Edit.outcome (Edit.setNamespace site.id (own.map Declaration.handle))
        (site.page document name written) =
      (.ok (.ok ()), site.page document name { written with own }) := by
  rw [Edit.outcome_setNamespace_of (ready.page_held written)]
  exact Prod.ext rfl (@put site document name written { written with own })

theorem undeclareDefault (ready : site.Ready document name)
    (admits : site.Admits written) :
    Edit.outcome (AliasTable.undeclareDefault site.id) (site.page document name written) =
      (.ok (.ok ()), site.page document name
        { written with declarations := site.undeclareDefault written.declarations }) := by
  rw [AliasTable.undeclareDefault, Edit.bind_get,
    Edit.bind_read_of (ready.page_findPrefix written none)]
  unfold Site.undeclareDefault
  cases denoted : (site.scope written.declarations).denoted? none with
  | none => rfl
  | some inherited =>
      have known := ready.page_binding written (places_of_denoted denoted)
      simp only [Option.map_some]
      rw [Edit.bind_read_of known]
      by_cases harmless : inherited.handle.owner = site.id ∨ inherited.binding.uri = ""
      · simp only [harmless, if_true]
        rfl
      · have declarable := declarable_default admits.tidy denoted fun own =>
          harmless (.inl own)
        simp only [harmless, if_false]
        rw [Edit.outcome_bind_of
          (Edit.outcome_declare_of (ready.page_held written) declarable)]
        exact Prod.ext rfl (@put site document name written
          { written with declarations := written.declarations ++ [⟨none, ""⟩] })

theorem declareAll (ready : site.Ready document name) (table : AliasTable)
    {rest : List Binding}
    (tidy : Document.Tidy (written.declarations ++ rest.map table.restate)) :
    ∃ handles,
      Edit.outcome (table.declareAll site.id rest) (site.page document name written) =
        (.ok (.ok handles), site.page document name
          { written with declarations :=
            written.declarations ++ rest.map table.restate }) := by
  rcases table.outcome_declareAll_of_element (ready.page_held written) with
    ⟨taken, longest, result⟩
  rw [longest.eq_self (tidy.allDeclarable table)] at result
  exact ⟨_, result.trans (Prod.ext rfl (@put site document name written
    { written with declarations := written.declarations ++ rest.map table.restate }))⟩

theorem copyDeclarations (ready : site.Ready document name) (table : AliasTable)
    {bindings : List Binding} (tidy : Document.Tidy bindings) :
    ∃ handles, Edit.outcome (table.copyDeclarations site.id bindings)
        (site.page document name {}) =
      (.ok (.ok handles),
        site.page document name { declarations := table.cloned bindings }) :=
  @declareAll site document name {} ready table _ (tidy.cloned table)

end Ready

/-! ## Writing all attributes -/

variable {table : AliasTable} {held : Attribute} {ns : Option Declaration}
  {declarations : List Binding}

theorem Admits.put (admits : site.Admits written)
    (named :
      source.StandsIn (table.ResolvesAttribute site written.declarations written.own)
      written.declarations held.ns ns declarations) :
    (∀ declaration, ns = some declaration → site.Places declarations declaration) ∧
      site.Admits { written with
        declarations, attributes :=
          Named.put ⟨held.name, ns, held.value⟩ written.attributes } := by
  have longer := named.longer fun resolved => resolved.longer
  have places : ∀ declaration, ns = some declaration →
      site.Places declarations declaration := by
    rintro declaration rfl
    generalize held.ns = wantedNs at named
    cases named with
    | found _ resolved =>
        rcases resolved.own_or_places with own | places
        · exact (admits.own own).mono longer
        · exact places
  refine ⟨places, named.tidy admits.tidy fun resolved => resolved.tidy admits.tidy, ?_⟩
  intro declaration member
  rcases List.mem_append.mp member with member | member
  · exact (admits.own (Option.mem_toList.mp member)).mono longer
  · rcases List.mem_filterMap.mp member with ⟨other, otherMember, own⟩
    rcases Named.mem_put otherMember with rfl | otherMember
    · exact places declaration own
    · exact (admits.named otherMember own).mono longer

theorem Ready.copyAttribute (ready : site.Ready document name)
    (admits : site.Admits written) (table : AliasTable)
    (known : ∀ handle, held.ns = some handle →
      ∃ binding, source.binding handle = .ok binding) :
    ∃ ns declarations,
      source.StandsIn (table.ResolvesAttribute site written.declarations written.own)
        written.declarations held.ns ns declarations ∧
      Edit.outcome (table.copyAttribute source site.id held)
        (site.page document name written) =
        (.ok (.ok ()), site.page document name
          { written with
            declarations
            attributes :=
              Named.put ⟨held.name, ns, held.value⟩ written.attributes }) := by
  rcases outcome_standIn (ready.resolveAttribute admits table) known with
    ⟨ns, declarations, named, result⟩
  refine ⟨ns, declarations, named, ?_⟩
  have places := (admits.put named).1
  have grown : site.Admits { written with declarations } := by
    refine ⟨named.tidy admits.tidy fun resolved => resolved.tidy admits.tidy, ?_⟩
    intro declaration member
    exact (admits.places declaration member).mono
      (named.longer fun resolved => resolved.longer)
  rw [AliasTable.copyAttribute, Edit.outcome_bind_of result]
  exact @Ready.setAttribute _ _ _ { written with declarations } ready grown
    ⟨held.name, ns, held.value⟩ places

theorem Ready.copyAttributes (ready : site.Ready document name) (table : AliasTable)
    {attributes : List Attribute} (admits : site.Admits written)
    (known : ∀ held ∈ attributes, ∀ handle, held.ns = some handle →
      ∃ binding, source.binding handle = .ok binding) :
    ∃ last, table.Writes source site attributes written last ∧ site.Admits last ∧
      Edit.outcome (attributes.forM (table.copyAttribute source site.id))
          (site.page document name written) =
        (.ok (.ok ()), site.page document name last) := by
  induction attributes generalizing written with
  | nil => exact ⟨written, .done written, admits, rfl⟩
  | cons held rest induction =>
      rcases ready.copyAttribute admits table (known held (by simp)) with
        ⟨ns, declarations, named, result⟩
      rcases induction (admits.put named).2
        fun other member => known other (List.mem_cons_of_mem _ member) with
        ⟨last, writes, lastAdmits, resultRest⟩
      exact ⟨last, .next named writes, lastAdmits,
        (Edit.outcome_bind_of result).trans resultRest⟩

end Site

end ResultTree
