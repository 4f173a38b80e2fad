import ResultTree.Proofs.Alias.Declaration
import ResultTree.Proofs.Stylesheet.Compilation

namespace ResultTree

/-! The stylesheets that compilation leads to. In an alias declaration, a prefix for the
empty URI denotes nothing, so no alias of such a stylesheet is for that URI or leads to
it. -/

namespace AliasDeclaration

variable {document : Document} {node : NodeId}

theorem ne_empty_of_read {declaration : AliasDeclaration}
    (answered : (read document node).run = .ok (.ok declaration)) :
    declaration.source ≠ "" ∧ declaration.target ≠ "" := by
  obtain ⟨_, _, _, _, _, _, source, target⟩ := read_eq_ok_iff.mp answered
  exact ⟨source.nonempty, target.nonempty⟩

end AliasDeclaration

namespace AliasTable

def Substantial (table : AliasTable) : Prop :=
  ∀ uri target, table.get? uri = some target → uri ≠ "" ∧ target ≠ ""

variable {table reached : AliasTable} {document : Document} {node : NodeId}

theorem substantial_empty : Substantial .empty := by
  intro uri target aliased
  cases aliased

theorem Substantial.take (substantial : table.Substantial)
    (taken : table.take document node = .ok reached) : reached.Substantial := by
  rcases take_cases taken with rfl | ⟨declaration, read, rfl⟩
  · exact substantial
  · have nonempty := AliasDeclaration.ne_empty_of_read read
    intro uri target aliased
    by_cases same : uri = declaration.source
    · subst same
      rw [get?_declare_same] at aliased
      cases aliased
      exact nonempty
    · rw [get?_declare_other _ same] at aliased
      exact substantial uri target aliased

theorem Substantial.target_empty (substantial : table.Substantial) :
    table.target "" = "" := by
  cases aliased : table.get? "" with
  | none => rw [target, aliased, Option.getD_none]
  | some uri => exact absurd rfl (substantial _ _ aliased).1

end AliasTable

namespace Stylesheet

inductive Draft.Reachable : Draft → Prop
  | start (config : Diagnostic.Config) : Reachable { queue := { config } }
  | call {draft changed : Draft} {call : Call} (reachable : Reachable draft)
      (made : call.run draft = .ok changed) : Reachable changed
  | defineKey {draft changed : Draft} {name : Key.Name} {matchSource useSource : String}
      {scope : Key.PrefixScope} (reachable : Reachable draft)
      (defined :
        (draft.defineKey name matchSource useSource scope).run = .ok (.ok changed)) :
      Reachable changed

def Compiled (stylesheet : Stylesheet) : Prop :=
  ∃ draft : Draft, draft.Reachable ∧ draft.finish.stylesheet = stylesheet

theorem compiled_of_compile {document : Document} {config : Diagnostic.Config}
    {compilation : Compilation} (compiled : compile document config = .ok compilation) :
    compilation.stylesheet.Compiled := by
  rcases Reading.bind_eq_ok_iff.mp compiled with ⟨draft, added, same⟩
  cases same
  exact ⟨draft,
    @Draft.Reachable.call _ _ (.addDeclarations document) (.start config) added, rfl⟩

variable {draft : Draft}

theorem Draft.Reachable.substantial (reachable : draft.Reachable) :
    draft.aliases.Substantial := by
  induction reachable with
  | start config => exact AliasTable.substantial_empty
  | call _ made induction =>
      exact Call.holds_aliases_of_run AliasTable.Substantial.take induction made
  | defineKey _ defined induction =>
      rcases Attempt.bind_eq_ok_iff.mp defined with ⟨keys, _, same⟩
      cases same
      exact induction

theorem Compiled.substantial {stylesheet : Stylesheet} (compiled : stylesheet.Compiled) :
    stylesheet.aliases.Substantial := by
  rcases compiled with ⟨draft, reachable, rfl⟩
  exact reachable.substantial

end Stylesheet

end ResultTree
