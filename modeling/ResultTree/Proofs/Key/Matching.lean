import ResultTree.Proofs.Key.Steps

namespace ResultTree.Key

/-! A pattern looks at a node from below: the last test of a path is put to the node,
each test before it to the next ancestor. A use expression that asks the same of children
starts from above. What a path accepts is what the use expression selects from some
ancestor, so both can be read off the steps that lead to the node. -/

/-- The steps that ask of a child, of a child of this child and so on to pass a path. -/
def downward (path : List NodeTest) : UseExpression := ⟨path.map .child⟩

variable {document : Document} {id : NodeId}

/-! ## The last step -/

theorem reaches_concat_iff {steps : List Step} {step : Step} {item reached : Item} :
    Reaches document (steps ++ [step]) item reached ↔
      ∃ between, Reaches document steps item between ∧
        step.Leads document between reached := by
  induction steps generalizing item with
  | nil =>
      constructor
      · intro reaches
        cases reaches with
        | next leads ended =>
            cases ended
            exact ⟨item, .done, leads⟩
      · rintro ⟨between, ended, leads⟩
        cases ended
        exact .next leads .done
  | cons first steps induction =>
      constructor
      · intro reaches
        cases reaches with
        | next leads rest =>
            rcases induction.mp rest with ⟨between, reaches, last⟩
            exact ⟨between, .next leads reaches, last⟩
      · rintro ⟨between, reaches, last⟩
        cases reaches with
        | next leads rest => exact .next leads (induction.mpr ⟨between, rest, last⟩)

theorem leads_child_iff {test : NodeTest} {item : Item} (linked : document.Linked) :
    (Step.child test).Leads document item (.node id) ↔
      ∃ parent, item = .node parent ∧ document.parentLink id = some parent ∧
        test.accepts document id = .ok true := by
  constructor
  · intro leads
    cases leads with
    | child listed member accepted =>
        have child := (Document.children_eq_ok_iff.mp listed).2 ▸ member
        exact ⟨_, rfl, linked.listed.mp child, accepted⟩
  · rintro ⟨parent, rfl, link, accepted⟩
    have member := linked.listed.mpr link
    have inside := linked.parentInside link
    exact .child (Document.children_eq_childLinks inside) member accepted

theorem reaches_downward_concat_iff (linked : document.Linked) {path : List NodeTest}
    {last : NodeTest} {origin : NodeId} :
    Reaches document (downward (path ++ [last])).steps (.node origin) (.node id) ↔
      ∃ parent, document.parentLink id = some parent ∧
        last.accepts document id = .ok true ∧
        Reaches document (downward path).steps (.node origin) (.node parent) := by
  simp only [downward, List.map_append, List.map_cons, List.map_nil]
  rw [reaches_concat_iff]
  constructor
  · rintro ⟨between, reaches, leads⟩
    rcases (leads_child_iff linked).mp leads with ⟨parent, rfl, link, accepted⟩
    exact ⟨parent, link, accepted, reaches⟩
  · rintro ⟨parent, link, accepted, reaches⟩
    exact ⟨_, reaches, (leads_child_iff linked).mpr ⟨parent, rfl, link, accepted⟩⟩

theorem passes_of_reaches_downward (linked : document.Linked) {path : List NodeTest}
    {upper lower : NodeId}
    (reaches : Reaches document (downward path).steps (.node upper) (.node lower)) :
    document.Passes lower upper := by
  induction path using List.reverseRecOn generalizing lower with
  | nil =>
      cases reaches
      exact .refl
  | append_singleton path last induction =>
      rcases (reaches_downward_concat_iff linked).mp reaches with
        ⟨parent, link, _, reaches⟩
      exact .head link (induction reaches)

/-! ## Climbing -/

theorem accepts_root (linked : document.Linked) (test : NodeTest) :
    test.accepts document Document.root = .ok false := by
  rcases linked.top with ⟨node, found, held, _⟩
  have content := (Document.content_of found).trans (congrArg _ held)
  cases test <;> simp [NodeTest.accepts, content]

theorem exists_parent_of_accepts (linked : document.Linked)
    (attached : document.Attached id) {test : NodeTest}
    (accepted : test.accepts document id = .ok true) :
    ∃ parent, document.parentLink id = some parent := by
  rcases Relation.ReflTransGen.cases_head attached with rfl | ⟨parent, link, _⟩
  · rw [accepts_root linked] at accepted
    cases accepted
  · exact ⟨parent, link⟩

theorem climbs_cons_iff (inside : id < document.size) {test : NodeTest}
    {outer : List NodeTest} :
    climbs document (test :: outer) id = .ok true ↔
      ∃ parent, document.parentLink id = some parent ∧
        test.accepts document parent = .ok true ∧
        climbs document outer parent = .ok true := by
  rw [climbs, Document.parent_eq_parentLink inside, Reading.ok_bind]
  cases link : document.parentLink id with
  | none => simp
  | some parent =>
      simp only [Option.some.injEq, exists_eq_left']
      rw [Reading.bind_eq_ok_iff]
      constructor
      · rintro ⟨passed, tested, climbed⟩
        cases passed with
        | true => exact ⟨tested, climbed⟩
        | false => simp at climbed
      · rintro ⟨tested, climbed⟩
        exact ⟨true, tested, climbed⟩

/-- A node and its ancestors pass tests if a path of these tests leads to the node from
somewhere. The tests are listed from the node upwards. -/
theorem climbs_iff_reaches (linked : document.Linked) (attached : document.Attached id)
    {last : NodeTest} {outer : List NodeTest} :
    last.accepts document id = .ok true ∧ climbs document outer id = .ok true ↔
      ∃ origin, Reaches document (downward (last :: outer).reverse).steps (.node origin)
        (.node id) := by
  rw [List.reverse_cons]
  simp only [reaches_downward_concat_iff linked]
  -- The next outer test is the last one of the path that ends at the parent.
  induction outer generalizing id last with
  | nil =>
      constructor
      · rintro ⟨accepted, _⟩
        rcases exists_parent_of_accepts linked attached accepted with ⟨parent, link⟩
        exact ⟨parent, parent, link, accepted, .done⟩
      · rintro ⟨_, _, _, accepted, _⟩
        exact ⟨accepted, rfl⟩
  | cons test outer induction =>
      rw [climbs_cons_iff (attached.inside linked), List.reverse_cons]
      simp only [reaches_downward_concat_iff linked]
      constructor
      · rintro ⟨accepted, parent, link, climbed⟩
        rcases (induction (attached.parent linked link)).mp climbed with ⟨origin, reaches⟩
        exact ⟨origin, parent, link, accepted, reaches⟩
      · rintro ⟨origin, parent, link, accepted, reaches⟩
        have climbed := (induction (attached.parent linked link)).mpr ⟨origin, reaches⟩
        exact ⟨accepted, parent, link, climbed⟩

theorem endsPath_iff_reaches (linked : document.Linked) {above : List NodeId}
    (attached : document.Attached id) (way : document.Way id (id :: above))
    {path : List NodeTest} :
    endsPath document path id = .ok true ↔
      ∃ origin ∈ above,
        Reaches document (downward path).steps (.node origin) (.node id) := by
  unfold endsPath
  cases backwards : path.reverse with
  | nil =>
      rw [List.reverse_eq_nil_iff.mp backwards]
      constructor
      · intro ended
        cases ended
      · rintro ⟨origin, member, reaches⟩
        cases reaches
        exact absurd member (List.nodup_cons.mp way.nodup).1
  | cons last outer =>
      have forwards : path = (last :: outer).reverse := List.reverse_eq_iff.mp backwards
      have climbs_iff : last.accepts document id = .ok true ∧
          climbs document outer id = .ok true ↔ _ := climbs_iff_reaches linked attached
      rw [Reading.bind_eq_ok_iff, forwards]
      constructor
      · rintro ⟨passed, accepted, climbed⟩
        cases passed with
        | false => simp at climbed
        | true =>
            rcases climbs_iff.mp ⟨accepted, climbed⟩ with ⟨origin, reaches⟩
            refine ⟨origin, ?_, reaches⟩
            rw [List.reverse_cons, reaches_downward_concat_iff linked] at reaches
            rcases reaches with ⟨parent, link, _, reaches⟩
            have passes := passes_of_reaches_downward linked reaches
            cases way with
            | top loose => simp [loose] at link
            | up otherLink upper =>
                cases link.symm.trans otherLink
                exact upper.mem_iff_passes.mpr passes
      · rintro ⟨origin, _, reaches⟩
        rcases climbs_iff.mpr ⟨origin, reaches⟩ with ⟨accepted, climbed⟩
        exact ⟨true, accepted, climbed⟩

/-! ## Patterns and use expressions -/

theorem accepts_eq_any (linked : document.Linked) (known : document.AllKnown)
    (inside : id < document.size) (pattern : Pattern) :
    pattern.accepts document id =
      .ok (pattern.alternatives.any fun path => endsPath document path id = .ok true) :=
  Reading.anyM_eq fun path _ => exists_endsPath linked known inside path

def SelectedFrom (document : Document) (path : List NodeTest) (id : NodeId)
    (origins : List NodeId) : Prop :=
  ∃ origin ∈ origins, ∃ selected,
    (downward path).selection document origin = .ok selected ∧ .node id ∈ selected

theorem attached_of_mem_above (linked : document.Linked) {above : List NodeId}
    (attached : document.Attached id) (way : document.Way id (id :: above))
    {origin : NodeId} (member : origin ∈ above) : document.Attached origin :=
  attached.above linked (way.mem_iff_passes.mp (List.mem_cons_of_mem _ member))

theorem endsPath_iff_selected (linked : document.Linked) (known : document.AllKnown)
    {above : List NodeId} (attached : document.Attached id)
    (way : document.Way id (id :: above)) {path : List NodeTest} :
    endsPath document path id = .ok true ↔ SelectedFrom document path id above := by
  rw [endsPath_iff_reaches linked attached way]
  refine exists_congr fun origin => and_congr_right fun member => ?_
  have place : document.Attached (Item.place (.node origin)) :=
    attached_of_mem_above linked attached way member
  have selects := selection_eq_ends linked known place (downward path)
  constructor
  · intro reaches
    refine ⟨_, selects, ?_⟩
    exact List.mem_eraseDups.mpr ((mem_ends_iff linked place).mpr reaches)
  · rintro ⟨selected, answered, chosen⟩
    cases selects.symm.trans answered
    exact (mem_ends_iff linked place).mp (List.mem_eraseDups.mp chosen)

/-- A pattern accepts a node of the tree exactly if one of its paths, taken from one of
the proper ancestors downwards as a use expression is, selects the node. The document
node is never accepted. -/
theorem Pattern.accepts_iff_selected (reachable : document.Reachable)
    (known : document.AllKnown) (attached : document.Attached id) (pattern : Pattern) :
    ∃ answer above, pattern.accepts document id = .ok answer ∧
      document.ancestors id = .ok above ∧
      (answer = true ↔ ∃ path ∈ pattern.alternatives,
        SelectedFrom document path id above) ∧
      (∀ path, ∀ origin ∈ above, ∃ selected,
        (downward path).selection document origin = .ok selected) ∧
      pattern.accepts document Document.root = .ok false := by
  have linked := reachable.linked
  have inside := attached.inside linked
  rcases attached.exists_way linked with ⟨above, way⟩
  have ancestors : document.ancestors id = .ok above := by
    have answered := (Document.ancestorsOrSelf_eq_ok_iff linked).mpr ⟨inside, way⟩
    simp [Document.ancestors, answered]
  refine ⟨_, above, accepts_eq_any linked known inside pattern, ancestors, ?iff,
    ?answers, ?root⟩
  case iff =>
    simp only [List.any_eq_true, decide_eq_true_eq,
      endsPath_iff_selected linked known attached way]
  case answers =>
    intro path origin member
    have originAttached := attached_of_mem_above linked attached way member
    exact ⟨_, selection_eq_ends linked known originAttached (downward path)⟩
  case root =>
    have top : document.Way Document.root [Document.root] := .top linked.rootLoose
    rw [accepts_eq_any linked known linked.rootInside, List.any_eq_false.mpr]
    intro path _
    rw [decide_eq_true_eq, endsPath_iff_selected linked known Document.attached_root top]
    rintro ⟨origin, member, _⟩
    cases member

def itemOrText : Pattern := ⟨[[.text], [.anyNode, .ofName (.named none "item")]]⟩

theorem Pattern.accepts_iff_selected_nestedItem :
    ∃ document, Document.after [.appendElement 0 "list", .appendElement 1 "item",
        .appendElement 2 "item", .newText "alpha", .appendChild 3 4] = some document ∧
      itemOrText.accepts document 3 = .ok true ∧
      itemOrText.accepts document Document.root = .ok false ∧
      ∃ path ∈ itemOrText.alternatives, SelectedFrom document path 3 [2, 1, 0] := by
  have made : ∃ document,
      Document.after [.appendElement 0 "list", .appendElement 1 "item",
        .appendElement 2 "item", .newText "alpha", .appendChild 3 4] = some document ∧
      document.AllKnown ∧ document.parentLink 3 = some 2 ∧
      document.parentLink 2 = some 1 ∧
      document.parentLink 1 = some 0 ∧ itemOrText.accepts document 3 = .ok true ∧
      document.ancestors 3 = .ok [2, 1, 0] :=
    ⟨_, rfl, by decide, rfl, rfl, rfl, rfl, rfl⟩
  rcases made with ⟨document, made, known, inner, middle, outer, accepts, ancestors⟩
  have attached : document.Attached 3 := .head inner (.head middle (.single outer))
  rcases itemOrText.accepts_iff_selected (Document.reachable_of_after made) known
    attached with
    ⟨answer, above, answered, ancestors', accepts_iff, _, rootRefused⟩
  cases accepts.symm.trans answered
  cases ancestors.symm.trans ancestors'
  exact ⟨document, made, accepts, rootRefused, accepts_iff.mp rfl⟩

end ResultTree.Key
