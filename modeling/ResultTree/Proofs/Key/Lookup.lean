import ResultTree.Proofs.Document.Operation
import ResultTree.Proofs.Key.Listing
import ResultTree.Transform.Run

namespace ResultTree

/-! Looking keys up in the course of a run. Whatever is done between two lookups, a run
keeps to its stylesheet and to its source, so an index that was built earlier is the
one that would be built now. -/

/-! ## A cache of indexes -/

namespace Key.Cache

/-- Every index that a cache holds for a document is the one that the definitions of its
key give now. -/
def Faithful (cache : Cache) (definitions : Definitions) (identity : DocumentId)
    (document : Document) : Prop :=
  ∀ name index, cache.indexes.get? (name, identity) = some index →
    ∃ present, definitions.get? name = some present ∧
      Index.build present document = .ok index

variable {cache changed : Cache} {definitions : Definitions} {identity : DocumentId}
  {document : Document} {name : Name} {value : String} {nodes : List NodeId}

theorem faithful_empty : empty.Faithful definitions identity document := by
  intro name index held
  cases held

theorem Faithful.insert (faithful : cache.Faithful definitions identity document)
    {present : List Definition} {index : Index}
    (defined : definitions.get? name = some present)
    (built : Index.build present document = .ok index) :
    Faithful ⟨cache.indexes.insert (name, identity) index⟩ definitions identity
      document := by
  intro other held heldAt
  by_cases same : other = name
  · subst same
    rw [OrderedMap.insert, OrderedMap.get?_update_same] at heldAt
    cases heldAt
    exact ⟨present, defined, built⟩
  · have different : (other, identity) ≠ (name, identity) := fun equal =>
      same (congrArg Prod.fst equal)
    rw [OrderedMap.insert, OrderedMap.get?_update_other _ different] at heldAt
    exact faithful other held heldAt

theorem Faithful.lookup (faithful : cache.Faithful definitions identity document)
    (answered :
      cache.lookup definitions identity document name value = .ok (nodes, changed)) :
    changed.Faithful definitions identity document := by
  unfold Cache.lookup at answered
  split at answered
  · cases answered
    exact faithful
  · cases answered
    exact faithful
  · next present defined _ =>
      rcases Reading.bind_eq_ok_iff.mp answered with ⟨index, built, same⟩
      cases same
      exact faithful.insert defined built

theorem Faithful.exists_lookup (faithful : cache.Faithful definitions identity document)
    (linked : document.Linked) (known : document.AllKnown) (name : Name)
    (value : String) :
    ∃ nodes changed, cache.lookup definitions identity document name value =
      .ok (nodes, changed) ∧
      (definitions.get? name = none → nodes = []) ∧
      ∀ present, definitions.get? name = some present →
        ∃ index, Index.build present document = .ok index ∧ nodes = index.get value := by
  cases defined : definitions.get? name with
  | none => exact ⟨[], cache, by simp [Cache.lookup, defined], by simp, by simp⟩
  | some present =>
      rcases Index.exists_build linked known present with ⟨index, built, _⟩
      cases held : cache.indexes.get? (name, identity) with
      | none =>
          refine ⟨index.get value, ⟨cache.indexes.insert (name, identity) index⟩,
            ?_, by simp, by simpa using ⟨index, built, rfl⟩⟩
          simp [Cache.lookup, defined, held, built]
      | some earlier =>
          rcases faithful name earlier held with ⟨other, otherDefined, builtEarlier⟩
          cases defined.symm.trans otherDefined
          refine ⟨earlier.get value,
            cache, by simp [Cache.lookup, defined, held], by simp,
            by simpa using ⟨earlier, builtEarlier, rfl⟩⟩

end Key.Cache

namespace Run

/-! ## Calls -/

inductive Call
  | key (name : Key.Name) (value : String)
  | copyNode (node parent : NodeId)
  | copyTree (node parent : NodeId)
  | resolve (wanted : Binding) (out : NodeId)
  | copyDeclarations (out : NodeId) (bindings : List Binding)
  | edit (edit : Edit Unit)
  | releaseKeys

def perform (run : Run) : Call → Reading Run
  | .key name value => Prod.snd <$> run.key name value
  | .copyNode node parent => Prod.snd <$> run.copyNode node parent
  | .copyTree node parent => Prod.snd <$> run.copyTree node parent
  | .resolve wanted out => Prod.snd <$> run.resolve wanted out
  | .copyDeclarations out bindings => Prod.snd <$> run.copyDeclarations out bindings
  | .edit edit => Prod.snd <$> run.edit edit
  | .releaseKeys => return run.releaseKeys

def performAll (run : Run) (calls : List Call) : Reading Run := calls.foldlM perform run

structure Keeps (run : Run) (stylesheet : Stylesheet) (source : Document) : Prop where
  sameStylesheet : run.stylesheet = stylesheet
  sameSource : run.source = source
  indexes : run.indexes.Faithful stylesheet.keys sourceIdentity source

variable {run after : Run} {stylesheet : Stylesheet} {source : Document}

theorem keeps_start (stylesheet : Stylesheet) (source : Document) :
    (start stylesheet source).Keeps stylesheet source :=
  ⟨rfl, rfl, Key.Cache.faithful_empty⟩

theorem Keeps.edit {α : Type} {edit : Edit α} {answer : Except Refusal α}
    (keeps : run.Keeps stylesheet source) (edited : run.edit edit = .ok (answer, after)) :
    after.Keeps stylesheet source := by
  rcases Reading.bind_eq_ok_iff.mp edited with ⟨⟨ending, result⟩, _, same⟩
  cases same
  exact ⟨keeps.sameStylesheet, keeps.sameSource, keeps.indexes⟩

theorem Keeps.key {name : Key.Name} {value : String} {nodes : List NodeId}
    (keeps : run.Keeps stylesheet source)
    (answered : run.key name value = .ok (nodes, after)) :
    after.Keeps stylesheet source := by
  rcases Reading.bind_eq_ok_iff.mp answered with ⟨⟨listed, indexes⟩, lookedUp, same⟩
  cases same
  rw [keeps.sameStylesheet, keeps.sameSource] at lookedUp
  exact ⟨keeps.sameStylesheet, keeps.sameSource, keeps.indexes.lookup lookedUp⟩

theorem Keeps.perform (keeps : run.Keeps stylesheet source) :
    ∀ {call : Call}, run.perform call = .ok after → after.Keeps stylesheet source
  | .key _ _, performed => by
      rcases Reading.map_eq_ok_iff.mp performed with ⟨_, answered, rfl⟩
      exact keeps.key answered
  | .copyNode _ _, performed | .copyTree _ _, performed | .resolve _ _, performed
  | .copyDeclarations _ _, performed | .edit _, performed => by
      rcases Reading.map_eq_ok_iff.mp performed with ⟨_, edited, rfl⟩
      exact keeps.edit edited
  | .releaseKeys, performed => by
      cases performed
      exact ⟨keeps.sameStylesheet, keeps.sameSource, Key.Cache.faithful_empty⟩

theorem Keeps.performAll {calls : List Call} (keeps : run.Keeps stylesheet source)
    (performed : run.performAll calls = .ok after) : after.Keeps stylesheet source :=
  Reading.holds_of_foldlM (·.Keeps stylesheet source)
    (fun _ _ _ _ keeps performed => keeps.perform performed) keeps performed

/-- A key gives the nodes that its definitions list under a value, once each and in
document order, at any time of a run. An index of a document holds as many values as
there are. -/
theorem exists_key {calls : List Call} (reachable : source.Reachable)
    (known : source.AllKnown)
    (performed : (start stylesheet source).performAll calls = .ok run) (name : Key.Name)
    (value : String) :
    (∃ nodes after visited, run.key name value = .ok (nodes, after) ∧
      source.descendants Document.root = .ok visited ∧ nodes.Sublist visited ∧
      nodes.Nodup ∧
      (∀ id, id ∈ nodes ↔
        Key.Listed ((stylesheet.keys.get? name).getD []) source value id) ∧
      (stylesheet.keys.get? name = none → nodes = [])) ∧
    ∀ definitions, ∃ index, ∃ values : Finset String,
      Key.Index.build definitions source = .ok index ∧
      (∀ value, value ∈ values ↔ ∃ id, Key.Listed definitions source value id) ∧
      index.size = values.card := by
  have linked := reachable.linked
  constructor
  · have keeps := (keeps_start stylesheet source).performAll performed
    rcases keeps.indexes.exists_lookup linked known name value with
      ⟨nodes, indexes, lookedUp, undefined, listed⟩
    rcases Key.Index.exists_build linked known [] with ⟨_, _, describesNone⟩
    rcases describesNone.ordered with ⟨visited, walked, _⟩
    refine ⟨nodes, { run with indexes }, visited, ?_, walked, ?_⟩
    · rw [Run.key, keeps.sameStylesheet, keeps.sameSource, lookedUp]
      rfl
    cases defined : stylesheet.keys.get? name with
    | none =>
        rw [undefined defined]
        refine ⟨List.nil_sublist _, .nil, fun id => ⟨by simp, fun listed => ?_⟩,
          fun _ => rfl⟩
        rcases listed.given with ⟨_, member, _⟩
        cases member
    | some present =>
        rcases listed present defined with ⟨index, built, rfl⟩
        rcases Key.Index.exists_build linked known present with ⟨_, builtHere, describes⟩
        cases built.symm.trans builtHere
        rcases describes.ordered with ⟨_, walkedHere, ordered⟩
        cases walked.symm.trans walkedHere
        exact ⟨ordered value, describes.once value, describes.listed value, by simp⟩
  · intro definitions
    rcases Key.Index.exists_build linked known definitions with ⟨index, built, describes⟩
    exact ⟨index, index.entries.keys.toFinset, built, by simpa using describes.keys,
      Key.Index.size_eq_card⟩

def byContent : List Key.Definition :=
  [⟨⟨"n", none⟩, "i", "@k", ⟨[[.ofName (.named none "i")]]⟩,
    ⟨[.attribute (.named none "k")]⟩⟩,
    ⟨⟨"n", none⟩, "i", "text()", ⟨[[.ofName (.named none "i")]]⟩, ⟨[.child .text]⟩⟩]

theorem exists_key_twoDefinitions :
    ∃ source run,
      Document.after [.appendElement 0 "r", .appendElement 1 "i", .newText "a",
        .appendChild 2 3, .setAttribute 2 "k" none "a", .appendElement 1 "i",
        .setAttribute 4 "k" none "b"] = some source ∧
      (start { keys := byContent.foldl .add .empty } source).performAll
        [.key ⟨"n", none⟩ "a", .releaseKeys, .key ⟨"n", none⟩ "b", .copyNode 2 0] =
          .ok run ∧
      ∃ nodes after, run.key ⟨"n", none⟩ "a" = .ok (nodes, after) ∧ nodes.Nodup ∧
        ∀ id, id ∈ nodes ↔ Key.Listed byContent source "a" id := by
  have made : ∃ source run, Document.after [.appendElement 0 "r", .appendElement 1 "i",
        .newText "a", .appendChild 2 3, .setAttribute 2 "k" none "a",
        .appendElement 1 "i",
        .setAttribute 4 "k" none "b"] = some source ∧ source.AllKnown ∧
      (start { keys := byContent.foldl .add .empty } source).performAll
        [.key ⟨"n", none⟩ "a", .releaseKeys, .key ⟨"n", none⟩ "b", .copyNode 2 0] =
          .ok run :=
    ⟨_, _, rfl, by decide, rfl⟩
  rcases made with ⟨source, run, made, known, performed⟩
  rcases (exists_key (Document.reachable_of_after made) known performed
    ⟨"n", none⟩ "a").1 with ⟨nodes, after, _, answered, _, _, once, listed, _⟩
  exact ⟨source, run, made, performed, nodes, after, answered, once, listed⟩

end Run

end ResultTree
