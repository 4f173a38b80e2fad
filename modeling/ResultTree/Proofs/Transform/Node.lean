import ResultTree.Proofs.Transform.Changes
import ResultTree.Proofs.Transform.Element

namespace ResultTree

/-! Copying one node appends one node to the result, if the parent can have children.
The new node holds what its content comes to at the place where it stands. -/

namespace Document

def appended (document : Document) (parent : NodeId) (content : Content) : Document :=
  (document.allocate content).attach parent document.size

variable {document : Document} {parent : NodeId} {content : Content}

@[simp] theorem size_appended :
    (document.appended parent content).size = document.size + 1 := by
  simp [appended]

theorem nodes_appended_new :
    (document.appended parent content).nodes[document.size]? =
      some { content, parent := some parent,
             children := if document.size = parent then [document.size] else [] } := by
  simp [appended, nodes_attach, nodes_allocate]

theorem nodes_appended_old {id : NodeId} (old : id < document.size) :
    (document.appended parent content).nodes[id]? =
      document.nodes[id]?.map fun node =>
        { node with
          children :=
            if id = parent then node.children ++ [document.size]
            else node.children } := by
  simp [appended, nodes_attach, nodes_allocate, Nat.ne_of_lt old]

def Hosts (document : Document) (parent : NodeId) : Prop :=
  ∃ node, document.nodes[parent]? = some node ∧ node.content.IsContainer

theorem Hosts.inside (hosts : document.Hosts parent) : parent < document.size := by
  rcases hosts with ⟨_, found, _⟩
  exact lt_size_of_node found

theorem Hosts.joinable (hosts : document.Hosts parent) (content : Content) :
    (document.allocate content).Joinable parent document.size where
  host := by
    rcases hosts with ⟨node, found, container⟩
    refine ⟨node, ?_, container⟩
    rw [nodes_allocate, if_neg (Nat.ne_of_lt (lt_size_of_node found)), found]
  notRoot := Nat.ne_of_gt (Nat.lt_of_le_of_lt (Nat.zero_le _) hosts.inside)
  inside := by simp
  loose := by
    rw [parentLink_allocate]
    simp [parentLink, nodes_size_eq_none]

theorem Hosts.changes (hosts : document.Hosts parent) (fresh : content.IsFresh) :
    document.Changes (document.appended parent content) :=
  .tail (.single (.touch (.allocate fresh))) (.attach (hosts.joinable content))

theorem Hosts.outcome_append (hosts : document.Hosts parent) (content : Content) :
    Edit.outcome (AliasTable.appendNew parent (Edit.allocate content)) document =
      (.ok (.ok document.size), document.appended parent content) := by
  rw [AliasTable.appendNew, Edit.outcome_bind_of (Edit.outcome_allocate content document),
    Edit.outcome_bind_of (Edit.outcome_appendChild_of (hosts.joinable content))]
  rfl

theorem parentLink_appended {id : NodeId} :
    (document.appended parent content).parentLink id =
      if id = document.size then some parent else document.parentLink id := by
  rw [appended, parentLink_attach (by simp), parentLink_allocate]

theorem declared_appended_old {id : NodeId} (old : id < document.size) :
    (document.appended parent content).declared id = document.declared id := by
  simp only [declared, nodes_appended_old old]
  cases document.nodes[id]? <;> rfl

def siteBelow (document : Document) (nodes : List NodeId) : Site :=
  ⟨document.size, nodes.flatMap document.declared⟩

theorem Way.appended {nodes : List NodeId} (linked : document.Linked)
    (way : document.Way parent nodes) (inside : parent < document.size) :
    (document.appended parent content).Way document.size (document.size :: nodes) := by
  refine .up (by rw [parentLink_appended, if_pos rfl])
    (way.of_sameLinks fun passed member => ?_)
  rw [parentLink_appended, if_neg (Nat.ne_of_lt (way.inside linked inside passed member))]

theorem Way.declared_appended {nodes : List NodeId} (linked : document.Linked)
    (way : document.Way parent nodes) (inside : parent < document.size) :
    nodes.flatMap (document.appended parent content).declared =
      nodes.flatMap document.declared := by
  apply List.flatMap_congr
  intro passed member
  exact declared_appended_old (way.inside linked inside passed member)

theorem Hosts.ready {nodes : List NodeId} (hosts : document.Hosts parent)
    (linked : document.Linked) (way : document.Way parent nodes) (name : String) :
    (document.siteBelow nodes).Ready (document.appended parent (.element { name }))
      name := by
  have changes := hosts.changes (Content.isFresh_element name)
  refine ⟨changes.linked linked, ?_, nodes, way.appended linked hosts.inside, ?_⟩
  · exact content_eq_ok_iff.mpr ⟨_, nodes_appended_new, rfl⟩
  · exact (way.declared_appended linked hosts.inside).symm

theorem putElement_appended (element replacement : Element) :
    (document.appended parent (.element element)).putElement document.size replacement =
      document.appended parent (.element replacement) := by
  apply eq_of_nodes
  intro id
  simp only [nodes_putElement, appended, nodes_attach, nodes_allocate]
  by_cases new : id = document.size
  · simp [new]
  · simp only [new, if_false]
    cases document.nodes[id]? <;> rfl

end Document

namespace AliasTable

inductive CopiesContent (table : AliasTable) (source : Document) (site : Site) :
    Content → Content → Prop
  | element {held : Element} {written : Written} (admits : site.Admits written)
      (copies : table.Copies source site held written) :
      CopiesContent table source site (.element held)
        (.element (written.element held.name))
  | text (text : String) : CopiesContent table source site (.text text) (.text text)
  | comment (text : String) :
      CopiesContent table source site (.comment text) (.comment text)
  | instruction (target data : String) :
      CopiesContent table source site (.instruction target data)
        (.instruction target data)

variable {source document : Document} {parent node : NodeId} {nodes : List NodeId}

theorem outcome_copyElement (table : AliasTable) (linked : document.Linked)
    (hosts : document.Hosts parent) (way : document.Way parent nodes) {held : Element}
    (heldOrderly : source.Orderly held) (known : source.Known held) :
    ∃ written, (document.siteBelow nodes).Admits written ∧
      table.Copies source (document.siteBelow nodes) held written ∧
      Edit.outcome (table.copyElement source held parent) document =
        (.ok (.ok document.size),
          document.appended parent (.element (written.element held.name))) := by
  have atSite : (document.siteBelow nodes).id = document.size := rfl
  have appended : Edit.outcome (Edit.appendElement parent held.name) document =
      (.ok (.ok document.size),
        document.appended parent (.element { name := held.name })) :=
    hosts.outcome_append _
  rcases (hosts.ready linked way held.name).writeElement table heldOrderly.tidy known with
    ⟨written, admits, copies, result⟩
  rw [Site.page, atSite, Document.putElement_appended] at result
  refine ⟨written, admits, copies, ?_⟩
  rw [copyElement_eq, Edit.outcome_bind_of appended, Edit.outcome_bind_of result,
    Edit.outcome_pure]

/-- Copying a node other than the document node appends it. -/
theorem outcome_copyNode (table : AliasTable) (linked : document.Linked)
    (hosts : document.Hosts parent) (way : document.Way parent nodes) {content : Content}
    (held : source.content node = .ok content) (notDocument : content ≠ .document)
    (heldOrderly : ∀ element, content = .element element → source.Orderly element)
    (known : ∀ element, content = .element element → source.Known element) :
    ∃ copied, table.CopiesContent source (document.siteBelow nodes) content copied ∧
      document.Changes (document.appended parent copied) ∧
      Edit.outcome (table.copyNode source node parent) document =
        (.ok (.ok document.size), document.appended parent copied) := by
  have answered : ∃ copied,
      table.CopiesContent source (document.siteBelow nodes) content copied ∧
        Edit.outcome (table.copyNode source node parent) document =
          (.ok (.ok document.size), document.appended parent copied) := by
    rw [copyNode, Edit.bind_read_of held]
    cases content with
    | document => exact absurd rfl notDocument
    | element element =>
        rcases outcome_copyElement table linked hosts way (heldOrderly element rfl)
          (known element rfl) with ⟨written, admits, copies, result⟩
        exact ⟨_, .element admits copies, result⟩
    | text text => exact ⟨_, .text text, hosts.outcome_append _⟩
    | comment text => exact ⟨_, .comment text, hosts.outcome_append _⟩
    | instruction target data =>
        exact ⟨_, .instruction target data, hosts.outcome_append _⟩
  rcases answered with ⟨copied, copies, result⟩
  have changes := @stepwise_copyNode table source node parent document
  rw [result] at changes
  exact ⟨copied, copies, changes, result⟩

end AliasTable

end ResultTree
