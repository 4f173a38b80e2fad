import ResultTree.Proofs.Transform.Site

namespace ResultTree

/-! What copying an element comes to depends on nothing but the element and the place of
the copy: of the cases that the relations on sites distinguish, no two meet. -/

variable {source : Document} {table : AliasTable} {site : Site} {present : List Binding}
  {wanted : Binding} {own : Option Declaration}

section

variable {answer other : Option Declaration} {changed left : List Binding}

theorem Site.Declares.unique (declares : site.Declares present wanted answer changed)
    (again : site.Declares present wanted other left) :
    answer = other ∧ changed = left := by
  cases declares with
  | declared declarable =>
      cases again with
      | declared _ => exact ⟨rfl, rfl⟩
      | refused undeclarable => exact absurd declarable undeclarable
  | refused undeclarable =>
      cases again with
      | declared declarable => exact absurd declarable undeclarable
      | refused _ => exact ⟨rfl, rfl⟩

theorem AliasTable.Resolves.unique
    (resolved : table.Resolves site present own wanted answer changed)
    (again : table.Resolves site present own wanted other left) :
    answer = other ∧ changed = left := by
  have isOwn {declaration : Declaration} (held : own = some declaration)
      (same : declaration.binding.uri = wanted.uri) :
      own.map (·.binding.uri) = some wanted.uri := by
    rw [held, Option.map_some, same]
  cases resolved with
  | empty nothing =>
      cases again with
      | empty _ => exact ⟨rfl, rfl⟩
      | own something _ _ => exact absurd nothing something
      | taken something _ _ => exact absurd nothing something
      | missing something _ _ _ => exact absurd nothing something
  | own something held same =>
      cases again with
      | empty nothing => exact absurd nothing something
      | own _ _ _ => exact ⟨rfl, rfl⟩
      | taken _ _ different => exact absurd (isOwn held same) different
      | missing _ _ _ different => exact absurd (isOwn held same) different
  | taken something taken different =>
      cases again with
      | empty nothing => exact absurd nothing something
      | own _ held same => exact absurd (isOwn held same) different
      | taken _ takenAgain _ => exact ⟨taken.symm.trans takenAgain, rfl⟩
      | missing _ missing _ _ => cases taken.symm.trans missing
  | missing something missing declares different =>
      cases again with
      | empty nothing => exact absurd nothing something
      | own _ held same => exact absurd (isOwn held same) different
      | taken _ taken _ => cases taken.symm.trans missing
      | missing _ _ declaresAgain _ => exact declares.unique declaresAgain

theorem AliasTable.ResolvesAttribute.unique
    (resolved : table.ResolvesAttribute site present own wanted answer changed)
    (again : table.ResolvesAttribute site present own wanted other left) :
    answer = other ∧ changed = left := by
  cases resolved with
  | nothing resolved =>
      cases again with
      | nothing resolvedAgain => exact ⟨rfl, (resolved.unique resolvedAgain).2⟩
      | named resolvedAgain _ => cases (resolved.unique resolvedAgain).1
      | replaced resolvedAgain _ _ => cases (resolved.unique resolvedAgain).1
      | invented resolvedAgain _ _ _ _ => cases (resolved.unique resolvedAgain).1
  | named resolved named =>
      cases again with
      | nothing resolvedAgain => cases (resolved.unique resolvedAgain).1
      | named resolvedAgain _ => exact resolved.unique resolvedAgain
      | replaced resolvedAgain unnamed _ =>
          cases (resolved.unique resolvedAgain).1
          exact absurd unnamed named
      | invented resolvedAgain unnamed _ _ _ =>
          cases (resolved.unique resolvedAgain).1
          exact absurd unnamed named
  | replaced resolved unnamed visible =>
      cases again with
      | nothing resolvedAgain => cases (resolved.unique resolvedAgain).1
      | named resolvedAgain named =>
          cases (resolved.unique resolvedAgain).1
          exact absurd unnamed named
      | replaced resolvedAgain _ visibleAgain =>
          rcases resolved.unique resolvedAgain with ⟨same, rfl⟩
          cases same
          exact ⟨visible.symm.trans visibleAgain, rfl⟩
      | invented resolvedAgain _ missing _ _ =>
          rcases resolved.unique resolvedAgain with ⟨same, rfl⟩
          cases same
          cases visible.symm.trans missing
  | invented resolved unnamed missing free declares =>
      cases again with
      | nothing resolvedAgain => cases (resolved.unique resolvedAgain).1
      | named resolvedAgain named =>
          cases (resolved.unique resolvedAgain).1
          exact absurd unnamed named
      | replaced resolvedAgain _ visible =>
          rcases resolved.unique resolvedAgain with ⟨same, rfl⟩
          cases same
          cases visible.symm.trans missing
      | invented resolvedAgain _ _ freeAgain declaresAgain =>
          rcases resolved.unique resolvedAgain with ⟨same, rfl⟩
          cases same
          cases free.symm.trans freeAgain
          exact declares.unique declaresAgain

theorem Document.StandsIn.unique
    {resolves : Binding → Option Declaration → List Binding → Prop} {ns : Option Handle}
    (named : source.StandsIn resolves present ns answer changed)
    (again : source.StandsIn resolves present ns other left)
    (each : ∀ {wanted answer other changed left}, resolves wanted answer changed →
      resolves wanted other left → answer = other ∧ changed = left) :
    answer = other ∧ changed = left := by
  cases named with
  | absent =>
      cases again with
      | absent => exact ⟨rfl, rfl⟩
  | found known resolved =>
      cases again with
      | found knownAgain resolvedAgain =>
          cases known.symm.trans knownAgain
          exact each resolved resolvedAgain

end

namespace AliasTable

variable {attributes : List Attribute} {held : Element} {written last final : Written}

theorem Writes.unique (writes : table.Writes source site attributes written last)
    (again : table.Writes source site attributes written final) : last = final := by
  induction writes with
  | done _ =>
      cases again with
      | done _ => rfl
  | next named _ induction =>
      cases again with
      | next namedAgain writesAgain =>
          rcases named.unique namedAgain
            (fun resolved again => resolved.unique again) with ⟨rfl, rfl⟩
          exact induction writesAgain

theorem Copies.unique (copies : table.Copies source site held last)
    (again : table.Copies source site held final) : last = final := by
  cases copies with
  | copy named writes =>
      cases again with
      | copy namedAgain writesAgain =>
          rcases named.unique namedAgain
            (fun resolved again => resolved.unique again) with ⟨rfl, rfl⟩
          exact writes.unique writesAgain

end AliasTable

end ResultTree
