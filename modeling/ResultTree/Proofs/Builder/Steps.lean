import ResultTree.Proofs.Builder.Settling

namespace ResultTree

/-! What one step of writing does. The elements that are still open stand one below the
other, the outermost below the document node, and nothing but their declarations has been
written of them. As long as this is so every step has an answer, which depends on
little. -/

namespace Document

variable {document changed : Document} {id target : NodeId}

theorem content_appended_old {parent : NodeId} {content : Content}
    (old : id < document.size) :
    (document.appended parent content).content id = document.content id := by
  apply content_congr
  rw [nodes_appended_old old, Option.map_map]
  rfl

theorem content_appended_new {parent : NodeId} {content : Content} :
    (document.appended parent content).content document.size = .ok content :=
  content_of nodes_appended_new

theorem content_line (line : Nat) :
    (document.modify target fun node => { node with line }).content id =
      document.content id := by
  apply content_congr
  rw [nodes_modify]
  split
  · rw [Option.map_map]
    rfl
  · rfl

theorem Hosts.outcome_attach {parent : NodeId} (hosts : document.Hosts parent)
    (content : Content) :
    Edit.outcome (do Edit.appendChild parent (← Edit.allocate content)) document =
      (.ok (.ok ()), document.appended parent content) := by
  rw [Edit.outcome_bind_of (Edit.outcome_allocate content document),
    Edit.outcome_appendChild_of (hosts.joinable content)]
  rfl

end Document

namespace Builder

open Document (Change)

variable {builder next : Builder}

/-! ## Steps change documents in the way that operations do -/

theorem changes_perform {α : Type} {edit : Edit α} (stepwise : Edit.Stepwise Change edit)
    (performed : builder.perform edit = .ok next) :
    builder.document.Changes next.document := by
  rcases Reading.bind_eq_ok_iff.mp performed with ⟨⟨answer, changed⟩, carried, left⟩
  have changes := stepwise.steps carried
  cases answer <;> cases left <;> exact changes

theorem changes_add {content : Content} (fresh : content.IsFresh)
    (added : builder.add (Edit.allocate content) = .ok next) :
    builder.document.Changes next.document := by
  rcases Reading.bind_eq_ok_iff.mp added with ⟨grown, performed, left⟩
  cases left
  exact @changes_perform builder grown _ _
    (.bind (.mono (.allocate fresh) .touch) fun _ => .appendChild _ _) performed

theorem changes_start {qname : String} (started : builder.start qname = .ok next) :
    builder.document.Changes next.document := by
  rcases Reading.bind_eq_ok_iff.mp started with ⟨grown, added, left⟩
  cases left
  exact @changes_add builder grown _ (Content.isFresh_element _) added

theorem document_of_resolve {node : NodeId} {nsPrefix : String} {answer : Option Handle}
    (resolved : builder.resolve node nsPrefix = .ok (answer, next)) :
    next.document = builder.document := by
  rcases Reading.bind_eq_ok_iff.mp resolved with ⟨found, _, left⟩
  cases found <;> cases left <;> rfl

theorem changes_settleName {element : OpenElement}
    (settled : builder.settleName element = .ok next) :
    builder.document.Changes next.document := by
  unfold settleName at settled
  cases prefixed : element.nsPrefix with
  | none =>
      rw [prefixed] at settled
      rcases Reading.bind_eq_ok_iff.mp settled with ⟨_, _, performed⟩
      exact changes_perform (.mono (.setNamespace _ _) .touch) performed
  | some nsPrefix =>
      rw [prefixed] at settled
      rcases Reading.bind_eq_ok_iff.mp settled with ⟨⟨_, resolver⟩, resolved, performed⟩
      rw [← document_of_resolve resolved]
      exact changes_perform (.mono (.setNamespace _ _) .touch) performed

theorem changes_settleAttribute {node : NodeId} {pending : PendingAttribute}
    (settled : builder.settleAttribute node pending = .ok next) :
    builder.document.Changes next.document := by
  unfold settleAttribute at settled
  cases prefixed : pending.nsPrefix with
  | none =>
      rw [prefixed] at settled
      exact changes_perform (.mono (.setAttribute _ _ _ _) .touch) settled
  | some nsPrefix =>
      rw [prefixed] at settled
      rcases Reading.bind_eq_ok_iff.mp settled with ⟨⟨_, resolver⟩, resolved, performed⟩
      rw [← document_of_resolve resolved]
      exact changes_perform (.mono (.setAttribute _ _ _ _) .touch) performed

theorem changes_settle {element : OpenElement}
    (settled : builder.settle element = .ok next) :
    builder.document.Changes next.document := by
  rcases Reading.bind_eq_ok_iff.mp settled with ⟨named, nameSettled, attributesSettled⟩
  exact (changes_settleName nameSettled).trans
    (Reading.holds_of_foldlM (named.document.Changes ·.document)
      (fun _ _ _ _ changes settled => changes.trans (changes_settleAttribute settled))
      .refl attributesSettled)

theorem changes_close (closed : builder.close = .ok next) :
    builder.document.Changes next.document := by
  unfold close at closed
  cases opened : builder.opened with
  | nil =>
      rw [opened] at closed
      cases closed
      exact .refl
  | cons innermost outer =>
      rw [opened] at closed
      exact @changes_settle { builder with opened := outer } _ _ closed

theorem changes_declare {nsPrefix : Option String} {uri : String}
    (declared : builder.declare nsPrefix uri = .ok next) :
    builder.document.Changes next.document := by
  unfold declare at declared
  cases current : builder.current with
  | none =>
      rw [current] at declared
      cases declared
      exact .refl
  | some node =>
      rw [current] at declared
      exact changes_perform (.mono (.declare _ _ _) .touch) declared

theorem changes_line {line : Nat} (marked : builder.line line = .ok next) :
    builder.document.Changes next.document := by
  unfold Builder.line at marked
  cases newest : builder.last with
  | none =>
      rw [newest] at marked
      cases marked
      exact .refl
  | some node =>
      rw [newest] at marked
      exact changes_perform (.mono (.setLine _ _) .touch) marked

def OpenElement.give (element : OpenElement) (qname value : String) : OpenElement :=
  { element with
    attributes := element.attributes ++
      [⟨(splitQName qname).1, (splitQName qname).2, value⟩] }

theorem attr_of_nil {qname value : String} (nothing : builder.opened = []) :
    builder.attr qname value = builder := by
  simp only [attr, nothing]

theorem attr_of_cons {qname value : String} {innermost : OpenElement}
    {outer : List OpenElement} (opened : builder.opened = innermost :: outer) :
    builder.attr qname value =
      { builder with opened := innermost.give qname value :: outer } := by
  simp only [attr, opened]
  rfl

theorem document_attr (qname value : String) :
    (builder.attr qname value).document = builder.document := by
  cases opened : builder.opened with
  | nil => rw [attr_of_nil opened]
  | cons innermost outer => rw [attr_of_cons opened]

theorem changes_apply {event : Event} (taken : builder.apply event = .ok next) :
    builder.document.Changes next.document := by
  cases event with
  | start qname => exact changes_start taken
  | declare nsPrefix uri => exact changes_declare taken
  | attr qname value =>
      cases taken
      rw [document_attr]
  | line line => exact changes_line taken
  | text text => exact @changes_add _ _ (.text text) trivial taken
  | comment text => exact @changes_add _ _ (.comment text) trivial taken
  | close => exact changes_close taken
  | leaf qname =>
      rcases Reading.bind_eq_ok_iff.mp taken with ⟨_, started, closed⟩
      exact (changes_start started).trans (changes_close closed)

/-! ## Where writing stands -/

def trail (builder : Builder) : List NodeId :=
  builder.opened.map OpenElement.node ++ [Document.root]

def scope (builder : Builder) : Scope := builder.document.scopeAlong builder.trail

/-- The open elements stand one below the other, with nothing written of them but their
declarations. -/
structure Standing (builder : Builder) : Prop where
  linked : builder.document.Linked
  orderly : builder.document.AllOrderly
  way : builder.document.Way builder.parent builder.trail
  blank : ∀ element ∈ builder.opened, ∃ name declarations,
    builder.document.content element.node = .ok (.element { name, declarations })
  newest : ∀ node ∈ builder.last, node < builder.document.size

/-- What one step does, with a case for each way in which it can go. A leaf is two
steps. -/
inductive Step (builder : Builder) : Event → Builder → Prop
  | start (qname : String) :
      Step builder (.start qname)
        { builder with
          document := builder.document.appended builder.parent
            (.element { name := (splitQName qname).2 })
          opened := ⟨builder.document.size, (splitQName qname).1, []⟩ :: builder.opened
          last := some builder.document.size }
  | text (text : String) :
      Step builder (.text text)
        { builder with
          document := builder.document.appended builder.parent (.text text)
          last := some builder.document.size }
  | comment (text : String) :
      Step builder (.comment text)
        { builder with
          document := builder.document.appended builder.parent (.comment text)
          last := some builder.document.size }
  | nowhere {nsPrefix : Option String} {uri : String} (nothing : builder.opened = []) :
      Step builder (.declare nsPrefix uri) builder
  | declared {innermost : OpenElement} {outer : List OpenElement} {element : Element}
      {nsPrefix : Option String} {uri : String}
      (opened : builder.opened = innermost :: outer)
      (held : builder.document.content innermost.node = .ok (.element element))
      (declarable : Document.Declarable element.declarations ⟨nsPrefix, uri⟩) :
      Step builder (.declare nsPrefix uri)
        { builder with
          document := builder.document.putElement innermost.node
            { element with declarations := element.declarations ++ [⟨nsPrefix, uri⟩] } }
  | refused {innermost : OpenElement} {outer : List OpenElement}
      {nsPrefix : Option String} {uri : String} {refusal : Refusal}
      (opened : builder.opened = innermost :: outer)
      (refused : (Edit.declare innermost.node nsPrefix uri).outcome builder.document =
        (.ok (.error refusal), builder.document)) :
      Step builder (.declare nsPrefix uri) (builder.note refusal)
  | attr (qname value : String) :
      Step builder (.attr qname value) (builder.attr qname value)
  | unmarked {line : Nat} (nothing : builder.last = none) :
      Step builder (.line line) builder
  | line {node : NodeId} (line : Nat) (newest : builder.last = some node) :
      Step builder (.line line)
        { builder with
          document := builder.document.modify node fun node => { node with line } }
  | surplus (nothing : builder.opened = []) : Step builder .close builder
  | close {innermost : OpenElement} {outer : List OpenElement} {name : String}
      {declarations : List Binding} (opened : builder.opened = innermost :: outer)
      (held : builder.document.content innermost.node =
        .ok (.element { name, declarations })) :
      Step builder .close
        { builder with
          document := builder.document.putElement innermost.node
            (innermost.settled builder.scope name declarations)
          opened := outer
          refusal := builder.refusal.or
            (builder.scope.unbound? innermost.node innermost.prefixes) }

namespace Standing

theorem start : Standing {} where
  linked := .empty
  orderly := .empty
  way := .top rfl
  blank := by simp
  newest := by simp

variable {event : Event} {innermost : OpenElement} {outer : List OpenElement}

theorem trail_of (opened : builder.opened = innermost :: outer) :
    builder.trail = innermost.node ::
      (outer.map OpenElement.node ++ [Document.root]) := by
  simp [trail, opened]

theorem way_of (standing : builder.Standing)
    (opened : builder.opened = innermost :: outer) :
    builder.document.Way innermost.node
      (innermost.node :: (outer.map OpenElement.node ++ [Document.root])) := by
  have way := standing.way
  rw [trail_of opened] at way
  simpa [parent, current, opened] using way

theorem hosts (standing : builder.Standing) : builder.document.Hosts builder.parent := by
  unfold parent current
  cases opened : builder.opened with
  | nil =>
      rcases standing.linked.top with ⟨node, found, shape, _⟩
      exact ⟨node, found, by rw [shape]; trivial⟩
  | cons innermost outer =>
      rcases standing.blank innermost (by simp [opened]) with ⟨name, declarations, held⟩
      rcases Document.content_eq_ok_iff.mp held with ⟨node, found, shape⟩
      exact ⟨node, found, by rw [shape]; trivial⟩

theorem add_of (standing : builder.Standing) (content : Content) :
    builder.add (Edit.allocate content) = .ok
      { builder with
        document := builder.document.appended builder.parent content
        last := some builder.document.size } := by
  rw [add, perform_of (standing.hosts.outcome_attach content)]
  rfl

theorem declare_of (standing : builder.Standing) (nsPrefix : Option String)
    (uri : String) :
    ∃ next, builder.declare nsPrefix uri = .ok next ∧
      builder.Step (.declare nsPrefix uri) next := by
  unfold declare current
  cases opened : builder.opened with
  | nil => exact ⟨builder, rfl, .nowhere opened⟩
  | cons innermost outer =>
      rcases standing.blank innermost (by simp [opened]) with ⟨name, declarations, held⟩
      rcases Edit.declare_cases innermost.node nsPrefix uri builder.document with
        ⟨element, elementHeld, declarable⟩ | ⟨refusal, refused⟩ | ⟨outside, _⟩
      · exact ⟨_, perform_of (Edit.outcome_declare_of elementHeld declarable),
          .declared opened elementHeld declarable⟩
      · exact ⟨_, perform_of_refused refused, .refused opened refused⟩
      · exact absurd (Document.lt_size_of_content held) (Nat.not_lt_of_le outside)

theorem line_of (standing : builder.Standing) (line : Nat) :
    ∃ next, builder.line line = .ok next ∧ builder.Step (.line line) next := by
  unfold Builder.line
  cases newest : builder.last with
  | none => exact ⟨builder, rfl, .unmarked newest⟩
  | some node =>
      rcases Document.exists_node_iff.mpr (standing.newest node newest) with ⟨_, found⟩
      have set : (Edit.setLine node line).outcome builder.document = (.ok (.ok ()), _) :=
        Edit.bind_read_of (Document.node_of found) _
      exact ⟨_, perform_of set, .line line newest⟩

theorem settle_of (standing : builder.Standing)
    (opened : builder.opened = innermost :: outer) {name : String}
    {declarations : List Binding}
    (held :
      builder.document.content innermost.node = .ok (.element { name, declarations }))
    (others : List OpenElement) :
    { builder with opened := others }.settle innermost = .ok
      { builder with
        document := builder.document.putElement innermost.node
          (innermost.settled builder.scope name declarations)
        opened := others
        refusal := builder.refusal.or
          (builder.scope.unbound? innermost.node innermost.prefixes) } := by
  have ready := (standing.way_of opened).ready standing.linked held name
  have tidy := (standing.orderly _ _ held).tidy
  have here : builder.document =
      (builder.document.putElement innermost.node { name }).putElement innermost.node
        (Written.element { declarations } name) :=
    ((Document.putElement_putElement _ _).trans (Document.putElement_self held)).symm
  rw [Builder.scope, trail_of opened, Document.scopeAlong_eq_scope held]
  exact @settle_page { builder with opened := others } _ _ name ready declarations
    tidy here innermost rfl

theorem close_of (standing : builder.Standing) :
    ∃ next, builder.close = .ok next ∧ builder.Step .close next := by
  unfold close
  cases opened : builder.opened with
  | nil => exact ⟨builder, rfl, .surplus opened⟩
  | cons innermost outer =>
      rcases standing.blank innermost (by simp [opened]) with ⟨name, declarations, held⟩
      exact ⟨_, standing.settle_of opened held outer, .close opened held⟩

theorem apply (standing : builder.Standing) (single : ∀ qname, event ≠ .leaf qname) :
    ∃ next, builder.apply event = .ok next ∧ builder.Step event next := by
  cases event with
  | start qname =>
      have added := standing.add_of (.element { name := (splitQName qname).2 })
      exact ⟨_, Reading.bind_eq_ok_iff.mpr ⟨_, added, rfl⟩, .start qname⟩
  | declare nsPrefix uri => exact standing.declare_of nsPrefix uri
  | attr qname value => exact ⟨_, rfl, .attr qname value⟩
  | line line => exact standing.line_of line
  | text text => exact ⟨_, standing.add_of _, .text text⟩
  | comment text => exact ⟨_, standing.add_of _, .comment text⟩
  | close => exact standing.close_of
  | leaf qname => exact absurd rfl (single qname)

end Standing

end Builder

end ResultTree
