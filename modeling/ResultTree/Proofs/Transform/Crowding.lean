import ResultTree.Proofs.Transform.Page

namespace ResultTree

/-! The URIs of the attributes of a copy. An attribute gets the URI that the aliases give,
or keeps its own if that is the namespace of the copy as it is. It gets none only where
nothing is found for the URI and the copy declares the prefix for something else. -/

namespace AliasTable

def attributeUri (table : AliasTable) (own : Option String) (uri : String) : String :=
  if own = some uri then uri else table.target uri

/-- There is no namespace at a copy for a name of the source. It is not the own one of
the copy, none is found for what the aliases make of it, and none can be declared. -/
structure CrowdedOut (table : AliasTable) (site : Site) (own : Option Declaration)
    (present : List Binding) (wanted : Binding) : Prop where
  other : own.map (·.binding.uri) ≠ some wanted.uri
  missing : (site.scope present).taken? (table.target wanted.uri) = none
  undeclarable : ¬ Document.Declarable present (table.restate wanted)

variable {table : AliasTable} {source : Document} {site : Site}
  {present changed : List Binding} {own answer : Option Declaration} {wanted : Binding}

theorem Resolves.eq_none_of_crowdedOut
    (crowded : table.CrowdedOut site own present wanted)
    (resolved : table.Resolves site present own wanted answer changed) :
    answer = none := by
  cases resolved with
  | empty _ => rfl
  | own _ held same =>
      refine absurd ?_ crowded.other
      rw [held, Option.map_some, same]
  | taken _ taken _ => cases taken.symm.trans crowded.missing
  | missing _ _ declares _ =>
      cases declares with
      | declared declarable => exact absurd declarable crowded.undeclarable
      | refused _ => rfl

theorem Resolves.uri_eq (something : wanted.uri ≠ "")
    (roomy : ¬ table.CrowdedOut site own present wanted)
    (resolved : table.Resolves site present own wanted answer changed) :
    answer.map (·.binding.uri) =
      some (table.attributeUri (own.map (·.binding.uri)) wanted.uri) := by
  cases resolved with
  | empty nothing => exact absurd nothing something
  | own _ held same => simp [attributeUri, held, same]
  | taken _ taken other =>
      rw [attributeUri, if_neg other, Option.map_some, Scope.uri_of_taken taken]
  | missing _ missing declares other =>
      rw [attributeUri, if_neg other]
      cases declares with
      | declared _ => rfl
      | refused undeclarable => exact absurd ⟨other, missing, undeclarable⟩ roomy

theorem ResolvesAttribute.eq_none_of_crowdedOut
    (crowded : table.CrowdedOut site own present wanted)
    (resolved : table.ResolvesAttribute site present own wanted answer changed) :
    answer = none := by
  cases resolved with
  | nothing _ => rfl
  | named resolved _ => cases resolved.eq_none_of_crowdedOut crowded
  | replaced resolved _ _ => cases resolved.eq_none_of_crowdedOut crowded
  | invented resolved _ _ _ _ => cases resolved.eq_none_of_crowdedOut crowded

theorem ResolvesAttribute.uri_eq (tidy : Document.Tidy present)
    (something : wanted.uri ≠ "") (roomy : ¬ table.CrowdedOut site own present wanted)
    (resolved : table.ResolvesAttribute site present own wanted answer changed) :
    answer.map (·.binding.uri) =
      some (table.attributeUri (own.map (·.binding.uri)) wanted.uri) := by
  cases resolved with
  | nothing resolved => cases resolved.uri_eq something roomy
  | named resolved _ => exact resolved.uri_eq something roomy
  | replaced resolved _ visible =>
      rw [← resolved.uri_eq something roomy]
      exact congrArg some (prefixed?_spec visible).2.2
  | invented resolved _ _ free declares =>
      rw [← resolved.uri_eq something roomy]
      cases declares with
      | declared _ => rfl
      | refused undeclarable =>
          exact absurd (Site.declarable_of_free (resolved.tidy tidy) free _) undeclarable

end AliasTable

end ResultTree
