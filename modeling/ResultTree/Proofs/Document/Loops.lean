import ResultTree.Proofs.Document.Descent

namespace ResultTree

/-! Whether walks over a document end. A node may be attached below itself, and
from then on walks along the loop do not end. That is the only way to get there:
as long as nothing is attached below itself, every walk from every node ends. -/

namespace Document

/-- Everything that walks from a node gives an answer, and its way up ends with a
node without a parent. -/
structure WalksEnd (document : Document) (id : NodeId) : Prop where
  top : ∃ way last, document.ancestorsOrSelf id = .ok way ∧ way.getLast? = some last ∧
    document.parent last = .ok none
  ancestors : ∃ nodes, document.ancestors id = .ok nodes
  findPrefix : ∀ nsPrefix, ∃ found, document.findPrefix id nsPrefix = .ok found
  findUri : ∀ uri, ∃ found, document.findUri id uri = .ok found
  inScope : ∃ visible, document.inScope id = .ok visible
  descendants : ∃ nodes, document.descendants id = .ok nodes
  stringValue : ∃ text, document.stringValue id = .ok text

section

variable {document : Document} {id : NodeId} {nodes : List NodeId}

theorem Way.exists_last (way : document.Way id nodes) :
    ∃ last, nodes.getLast? = some last ∧ document.parentLink last = none := by
  induction way with
  | @top id loose => exact ⟨id, rfl, loose⟩
  | up _ way induction =>
      rcases induction with ⟨last, atEnd, loose⟩
      exact ⟨last, by simp [List.getLast?_cons, atEnd], loose⟩

theorem Way.stringValue (linked : document.Linked) (way : document.Way id nodes)
    (inside : id < document.size) : ∃ text, document.stringValue id = .ok text := by
  have texts : ∃ texts,
      (document.subtree id).filterMapM document.ownText? = .ok texts := by
    apply Reading.exists_filterMapM_ok
    intro below member
    have belowInside := inside_of_mem_preorder linked inside member
    rcases exists_node_iff.mpr belowInside with ⟨node, found⟩
    cases shape : node.content <;> simp [ownText?, content_of found, shape]
  rcases texts with ⟨texts, collected⟩
  rcases exists_node_iff.mpr inside with ⟨node, found⟩
  cases shape : node.content <;>
    simp [Document.stringValue, content_of found, shape,
      descendants_eq_subtree linked way inside, collected]

theorem Way.walksEnd (linked : document.Linked) (way : document.Way id nodes)
    (inside : id < document.size) : document.WalksEnd id := by
  have up := (ancestorsOrSelf_eq_ok_iff linked).mpr ⟨inside, way⟩
  have scope := way.scope linked inside
  rcases way.exists_last with ⟨last, atEnd, loose⟩
  have lastInside := way.inside linked inside last (List.mem_of_getLast? atEnd)
  exact {
    top := ⟨nodes, last, up, atEnd, by rw [parent_eq_parentLink lastInside, loose]⟩
    ancestors := by simp [Document.ancestors, up]
    findPrefix := by
      intro nsPrefix
      by_cases isXml : nsPrefix = some "xml" <;>
        simp [Document.findPrefix, isXml, scope, Scope.conclude]
    findUri := by
      intro uri
      by_cases isXml : uri =
        xmlUri <;> simp [Document.findUri, isXml, scope, Scope.conclude]
    inScope := by simp [Document.inScope, scope]
    descendants := ⟨_, descendants_eq_subtree linked way inside⟩
    stringValue := way.stringValue linked inside }

theorem WalksEnd.way (linked : document.Linked) (ends : document.WalksEnd id) :
    ∃ nodes, document.Way id nodes := by
  rcases ends.top with ⟨way, _, up, _⟩
  exact ⟨way, ((ancestorsOrSelf_eq_ok_iff linked).mp up).2⟩

/-! ## What attaching does to the ways -/

theorem Acyclic.attach (acyclic : document.Acyclic) {parent child : NodeId}
    (joinable : document.Joinable parent child) (apart : ¬ document.Passes parent child) :
    (document.attach parent child).Acyclic := by
  have links (passed : NodeId) (other : passed ≠ child) :
      (document.attach parent child).parentLink passed = document.parentLink passed := by
    rw [parentLink_attach joinable.inside, if_neg other]
  rcases acyclic parent with ⟨above, parentWay⟩
  have parentWay : (document.attach parent child).Way parent above := by
    refine parentWay.of_sameLinks fun passed member => links passed fun same => ?_
    exact apart (same ▸ parentWay.mem_iff_passes.mp member)
  have childWay : (document.attach parent child).Way child (child :: above) :=
    .up (by rw [parentLink_attach joinable.inside, if_pos rfl]) parentWay
  intro id
  rcases acyclic id with ⟨nodes, way⟩
  -- A way that reaches the child goes on with the way of its parent.
  induction way with
  | @top id loose =>
      by_cases atChild : id = child
      · subst atChild
        exact ⟨_, childWay⟩
      · exact ⟨_, .top ((links id atChild).trans loose)⟩
  | @up id _ _ link _ induction =>
      have other : id ≠ child := by
        intro same
        rw [same, joinable.loose] at link
        cases link
      rcases induction with ⟨rest, way⟩
      exact ⟨_, .up ((links id other).trans link) way⟩

def Circles (document : Document) (id : NodeId) : Prop :=
  ∃ parent, document.parentLink id = some parent ∧ document.Passes parent id

theorem Circles.not_way (circles : document.Circles id) :
    ¬ ∃ nodes, document.Way id nodes := by
  rintro ⟨nodes, way⟩
  rcases circles with ⟨parent, link, passes⟩
  cases way with
  | top loose => simp [loose] at link
  | up otherLink above =>
      cases link.symm.trans otherLink
      have onWay := above.mem_iff_passes.mpr passes
      exact (List.nodup_cons.mp (Way.up link above).nodup).1 onWay

theorem Circles.of_links {changed : Document} (circles : document.Circles id)
    (kept : ∀ {lower upper}, document.parentLink lower = some upper →
      changed.parentLink lower = some upper) : changed.Circles id := by
  rcases circles with ⟨parent, link, passes⟩
  exact ⟨parent, kept link, Relation.ReflTransGen.mono (fun _ _ => kept) _ _ passes⟩

theorem parentLink_attach_of_some {parent child lower upper : NodeId}
    (joinable : document.Joinable parent child)
    (link : document.parentLink lower = some upper) :
    (document.attach parent child).parentLink lower = some upper := by
  have other : lower ≠ child := by
    intro same
    rw [same, joinable.loose] at link
    cases link
  rw [parentLink_attach joinable.inside, if_neg other, link]

theorem circles_attach {parent child : NodeId} (joinable : document.Joinable parent child)
    (passes : document.Passes parent child) :
    (document.attach parent child).Circles child :=
  ⟨parent, by rw [parentLink_attach joinable.inside, if_pos rfl],
    Relation.ReflTransGen.mono (fun _ _ => parentLink_attach_of_some joinable) _ _ passes⟩

theorem Change.circles {changed : Document} (change : Change document changed)
    (circles : document.Circles id) : changed.Circles id := by
  refine circles.of_links fun {lower upper} link => ?_
  cases change with
  | touch touch => rw [touch.parentLink_eq, link]
  | attach joinable => exact parentLink_attach_of_some joinable link

theorem Changes.circles {changed : Document} (changes : Changes document changed)
    (circles : document.Circles id) : changed.Circles id :=
  Changes.holds changes circles Change.circles

end

end Document

/-! ## Operations that close a loop -/

/-- An operation attaches a node below itself: it appends, without being refused, a node
that the way up from the new parent passes. -/
def Operation.ClosesLoop (operation : Operation) (document : Document) : Prop :=
  ∃ parent child changed ascent, operation = .appendChild parent child ∧
    (Edit.appendChild parent child).on document = .ok (.ok (), changed) ∧
    document.ascent parent = .ok ascent ∧ child ∈ ascent.nodes

namespace Document

variable {document changed : Document} {operation : Operation}

theorem joinable_of_appended {parent child : NodeId}
    (appended : (Edit.appendChild parent child).on document = .ok (.ok (), changed)) :
    document.Joinable parent child ∧ changed = document.attach parent child := by
  have result := Edit.on_eq_ok_iff.mp appended
  rcases Edit.appendChild_cases parent child document with
    joinable | ⟨_, refused⟩ | ⟨_, faults⟩
  · rw [Edit.outcome_appendChild_of joinable] at result
    cases result
    exact ⟨joinable, rfl⟩
  · rw [refused] at result
    cases result
  · rw [faults] at result
    cases result

theorem circles_of_closesLoop (closes : operation.ClosesLoop document)
    (left : operation.leaves document = .ok changed) : ∃ id, changed.Circles id := by
  rcases closes with ⟨parent, child, attached, ascent, rfl, appended, climbed, member⟩
  rcases joinable_of_appended appended with ⟨joinable, rfl⟩
  rw [ascent_of_inside joinable.hostInside] at climbed
  cases climbed
  have same : changed = document.attach parent child := by
    rcases Operation.leaves_eq_ok_iff.mp left with ⟨answer, result⟩
    cases result.symm.trans appended
    rfl
  exact ⟨child, same ▸ circles_attach joinable (passes_of_mem_climb member)⟩

theorem Touch.acyclic (touch : Touch document changed) (acyclic : document.Acyclic) :
    changed.Acyclic := by
  intro id
  rcases acyclic id with ⟨nodes, way⟩
  exact ⟨nodes, way.of_sameLinks fun passed _ => touch.parentLink_eq passed⟩

theorem Acyclic.appendElement (linked : document.Linked) (acyclic : document.Acyclic)
    {parent : NodeId} (inside : parent < document.size) (name : String) :
    (Edit.outcome (Edit.appendElement parent name) document).2.Acyclic := by
  have grown := (Touch.allocate (Content.isFresh_element name)).acyclic acyclic
  have first := Edit.outcome_allocate (.element { name }) document
  rw [Edit.appendElement, Edit.newElement, Edit.outcome_bind_of first]
  rcases Edit.appendChild_cases parent document.size
    (document.allocate (.element { name })) with
    joinable | refused | faults
  · rw [Edit.outcome_bind_of (Edit.outcome_appendChild_of joinable)]
    apply grown.attach joinable
    intro passes
    rcases acyclic parent with ⟨nodes, way⟩
    have grownWay := way.of_sameLinks fun passed _ =>
      (Touch.allocate (Content.isFresh_element name)).parentLink_eq passed
    have member := grownWay.mem_iff_passes.mpr passes
    exact Nat.lt_irrefl _ (way.inside linked inside _ member)
  · rcases refused.bind fun _ => (pure document.size : Edit NodeId) with ⟨_, result⟩
    rwa [result]
  · rcases faults.bind fun _ => (pure document.size : Edit NodeId) with ⟨_, result⟩
    rwa [result]

theorem Acyclic.leaves (linked : document.Linked) (acyclic : document.Acyclic)
    (inRange : operation.InRange document)
    (left : operation.leaves document = .ok changed)
    (harmless : ¬ operation.ClosesLoop document) : changed.Acyclic := by
  rcases Operation.leaves_eq_ok_iff.mp left with ⟨answer, result⟩
  have same : changed = (Edit.outcome operation.edit document).2 :=
    (congrArg Prod.snd (Edit.on_eq_ok_iff.mp result)).symm
  by_cases appends : operation.Appends
  · rw [same]
    cases operation with
    | appendChild parent child =>
        rcases Edit.appendChild_cases parent child document with
          joinable | ⟨_, refused⟩ | ⟨_, faults⟩
        · rw [Operation.edit, Edit.outcome_appendChild_of joinable]
          refine acyclic.attach joinable fun passes => harmless ?_
          rcases acyclic parent with ⟨nodes, way⟩
          exact ⟨parent, child, _, _, rfl,
            Edit.on_of (Edit.outcome_appendChild_of joinable),
            way.ascent linked joinable.hostInside, way.mem_iff_passes.mpr passes⟩
        · rwa [Operation.edit, refused]
        · rwa [Operation.edit, faults]
    | appendElement parent name =>
        rw [Operation.edit, Edit.outcome_map]
        exact acyclic.appendElement linked
          (inRange parent (by simp [Operation.given])) name
    | _ => exact absurd appends id
  · have touches := (Operation.stepwise_touch appends).steps result
    clear left result same
    induction touches with
    | refl => exact acyclic
    | tail _ touch induction => exact touch.acyclic induction

theorem acyclic_empty : Acyclic .empty := by
  intro id
  refine ⟨[id], .top ?_⟩
  by_cases atRoot : id = root <;> simp [parentLink, Linked.nodes_empty, atRoot]

/-! ## Histories without a loop -/

def LoopClosed (operations : List Operation) : Prop :=
  ∃ before operation after earlier, operations = before ++ operation :: after ∧
    History before earlier ∧ operation.ClosesLoop earlier

theorem History.unique {operations : List Operation} {left right : Document}
    (history : History operations left) (other : History operations right) :
    left = right := by
  induction history generalizing right with
  | start =>
      generalize same : ([] : List Operation) = operations at other
      cases other with
      | start => rfl
      | next _ _ _ => simp at same
  | @next operations document changed operation _ _ leftHere induction =>
      generalize same : operations ++ [operation] = others at other
      cases other with
      | start => simp at same
      | next otherHistory _ leftThere =>
          rcases List.append_inj' same rfl with ⟨sameOperations, sameOperation⟩
          cases sameOperation
          cases induction (sameOperations ▸ otherHistory)
          cases leftHere.symm.trans leftThere
          rfl

theorem History.prefix_of_append {before after : List Operation} {document : Document}
    (history : History (before ++ after) document) :
    ∃ earlier, History before earlier ∧ earlier.Changes document := by
  generalize same : before ++ after = operations at history
  induction history generalizing after with
  | start =>
      rcases List.append_eq_nil_iff.mp same with ⟨rfl, rfl⟩
      exact ⟨.empty, .start, .refl⟩
  | @next operations document changed operation history inRange left induction =>
      rcases List.eq_nil_or_concat after with rfl | ⟨rest, last, rfl⟩
      · rw [List.append_nil] at same
        subst same
        exact ⟨changed, .next history inRange left, .refl⟩
      · rw [List.concat_eq_append, ← List.append_assoc] at same
        rcases induction (List.append_inj' same rfl).1 with
          ⟨earlier, earlierHistory, changes⟩
        exact ⟨earlier, earlierHistory, changes.trans (Operation.changes left)⟩

theorem History.last {operations : List Operation} {operation : Operation}
    {document : Document} (history : History (operations ++ [operation]) document) :
    ∃ earlier, History operations earlier ∧ operation.InRange earlier ∧
      operation.leaves earlier = .ok document := by
  generalize same : operations ++ [operation] = all at history
  cases history with
  | start => simp at same
  | next history inRange left =>
      rcases List.append_inj' same rfl with ⟨rfl, sameOperation⟩
      cases sameOperation
      exact ⟨_, history, inRange, left⟩

theorem History.acyclic {operations : List Operation} {document : Document}
    (history : History operations document) (harmless : ¬ LoopClosed operations) :
    document.Acyclic := by
  induction history with
  | start => exact acyclic_empty
  | @next operations document changed operation history inRange left induction =>
      have before : ¬ LoopClosed operations := by
        rintro ⟨before, closing, after, earlier, rfl, rest⟩
        exact harmless ⟨before, closing, after ++ [operation], earlier, by simp, rest⟩
      refine (induction before).leaves (Reachable.linked ⟨_, history⟩) inRange left
        fun closes => ?_
      exact harmless ⟨operations, operation, [], document, rfl, history, closes⟩

theorem History.circles {operations : List Operation} {document : Document}
    (history : History operations document) (closed : LoopClosed operations) :
    ∃ id, document.Circles id := by
  rcases closed with ⟨before, operation, after, earlier, rfl, earlierHistory, closes⟩
  have regrouped : before ++ operation :: after = (before ++ [operation]) ++ after := by
    simp
  rcases (regrouped ▸ history).prefix_of_append with ⟨looped, loopedHistory, changes⟩
  rcases loopedHistory.last with ⟨other, otherHistory, _, left⟩
  cases earlierHistory.unique otherHistory
  rcases circles_of_closesLoop closes left with ⟨id, circles⟩
  exact ⟨id, Changes.circles changes circles⟩

/-- Every walk from every node of a document ends exactly if no operation on the
way to it attached a node below itself. -/
theorem walksEnd_iff_not_loopClosed {operations : List Operation} {document : Document}
    (history : History operations document) :
    (∀ id < document.size, document.WalksEnd id) ↔ ¬ LoopClosed operations := by
  have linked : document.Linked := Reachable.linked ⟨_, history⟩
  constructor
  · intro ends closed
    rcases history.circles closed with ⟨id, circles⟩
    rcases circles with ⟨parent, link, passes⟩
    have inside := lt_size_of_parentLink link
    exact Circles.not_way ⟨parent, link, passes⟩ ((ends id inside).way linked)
  · intro harmless id inside
    rcases history.acyclic harmless id with ⟨nodes, way⟩
    exact way.walksEnd linked inside

theorem walksEnd_iff_not_loopClosed_nested :
    ∃ document,
      History [.newElement "outer", .appendElement 1 "inner", .appendChild 0 1] document ∧
      ((∀ id < document.size, document.WalksEnd id) ↔
        ¬ LoopClosed [.newElement "outer", .appendElement 1 "inner",
          .appendChild 0 1]) := by
  have history : ∃ document,
      History [.newElement "outer", .appendElement 1 "inner", .appendChild 0 1]
      document :=
    ⟨_,
      @History.next [.newElement "outer", .appendElement 1 "inner"]
      _ _ (.appendChild 0 1)
        (@History.next [.newElement "outer"] _ _ (.appendElement 1 "inner")
          (@History.next [] _ _ (.newElement "outer") .start (by decide) rfl)
          (by decide) rfl) (by decide) rfl⟩
  rcases history with ⟨document, history⟩
  exact ⟨document, history, walksEnd_iff_not_loopClosed history⟩

/-- A detached element may be attached to itself, and then no walk from it ends. -/
theorem endless_of_self_attached :
    ∃ document, History [.newElement "e", .appendChild 1 1] document ∧
      document.ancestors 1 = .error .endlessWalk ∧
      document.findPrefix 1 none = .error .endlessWalk ∧
      document.findUri 1 "urn:a" = .error .endlessWalk ∧
      document.inScope 1 = .error .endlessWalk ∧
      document.descendants 1 = .error .endlessWalk ∧
      document.stringValue 1 = .error .endlessWalk :=
  ⟨_, @History.next [.newElement "e"] _ _ (.appendChild 1 1)
      (@History.next [] _ _ (.newElement "e") .start (by decide) rfl) (by decide) rfl,
    rfl, rfl, rfl, rfl, rfl, rfl⟩

end Document

end ResultTree
