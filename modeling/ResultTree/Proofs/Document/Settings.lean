import ResultTree.Proofs.Document.Growth
import ResultTree.Proofs.Document.Outline
import ResultTree.Proofs.Lists

namespace ResultTree

/-! The attributes of an element are a map that keeps its order. They are told apart by
their names and the URIs of their namespaces, and each stands where its name was set
first, as it was set last. An attribute holds a handle in place of the URI, so this rests
on handles that go on denoting what they denoted when the attribute was set. -/

/-- An attribute as it was set, with the URI that its handle denoted at that time. -/
structure Setting where
  held : Attribute
  uri : Option String
deriving DecidableEq, Repr

def Setting.fullName (setting : Setting) : String × Option String :=
  (setting.held.name, setting.uri)

/-- What an operation sets on a node. It sets nothing if it is refused or ends in a
fault. -/
def Operation.setting? (operation : Operation) (document : Document) (id : NodeId) :
    Option Setting :=
  match operation with
  | .setAttribute target name ns value =>
      match document.uri? ns,
        ((Edit.setAttribute target name ns value).outcome document).1 with
      | .ok uri, .ok (.ok ()) =>
          if target = id then some ⟨⟨name, ns, value⟩, uri⟩ else none
      | _, _ => none
  | _ => none

def LastSet (settings : List Setting) (name : String × Option String) (held : Attribute) :
    Prop :=
  ∃ setting, (settings.filter (·.fullName = name)).getLast? = some setting ∧
    setting.held = held

theorem lastSet_append_singleton_iff {settings : List Setting} {setting : Setting}
    {name : String × Option String} {held : Attribute} :
    LastSet (settings ++ [setting]) name held ↔
      if name = setting.fullName then held = setting.held
      else LastSet settings name held := by
  rw [LastSet, List.filter_append]
  by_cases same : name = setting.fullName
  · simp [same, eq_comm]
  · simp [LastSet, same, eq_comm (a := setting.fullName)]

namespace Document

def fullName (document : Document) (held : Attribute) :
    Reading (String × Option String) := do
  return (held.name, ← document.uri? held.ns)

def following (document : Document) (operation : Operation) : Document :=
  (operation.edit.outcome document).2

def ofOperations (operations : List Operation) : Document :=
  operations.foldl following .empty

def settingsOn (document : Document) (id : NodeId) : List Operation → List Setting
  | [] => []
  | operation :: rest =>
      (operation.setting? document id).toList ++
        (document.following operation).settingsOn id rest

/-- Attributes stand where their names were set first, and as they were set last. -/
def ShowsLast (document : Document) (settings : List Setting)
    (attributes : List Attribute) : Prop :=
  List.Forall₂ (fun name held => document.fullName held = .ok name ∧
    LastSet settings name held) (settings.map Setting.fullName).eraseDups attributes

def attributeList (document : Document) (id : NodeId) : List Attribute :=
  (document.nodes[id]?.bind (·.content.element?)).elim [] Element.attributes

variable {document changed : Document} {id : NodeId} {operation : Operation}

theorem fullName_eq_ok_iff {held : Attribute} {name : String × Option String} :
    document.fullName held = .ok name ↔
      held.name = name.1 ∧ document.uri? held.ns = .ok name.2 := by
  rcases name with ⟨localName, uri⟩
  cases known : document.uri? held.ns <;> simp [fullName, known]

theorem Extends.fullName (extended : changed.Extends document) {held : Attribute}
    {name : String × Option String} (known : document.fullName held = .ok name) :
    changed.fullName held = .ok name := by
  rw [fullName_eq_ok_iff] at known ⊢
  exact ⟨known.1, extended.uri? known.2⟩

theorem extends_following (document : Document) (operation : Operation) :
    (document.following operation).Extends document :=
  Changes.extends (operation.stepwise document)

theorem settingsOn_append (document : Document) (id : NodeId)
    (front back : List Operation) :
    document.settingsOn id (front ++ back) =
      document.settingsOn id front ++
        (front.foldl following document).settingsOn id back := by
  induction front generalizing document with
  | nil => rfl
  | cons operation rest induction =>
      simp only [List.cons_append, settingsOn, List.foldl_cons, induction,
        List.append_assoc]

/-! ## Assigning one attribute -/

/-- Assigning replaces the attribute of a name, or adds it after all others. -/
theorem forall₂_assign {told : String × Option String → Attribute → Prop}
    {added : Attribute} {uri : Option String} {names : List (String × Option String)}
    {attributes assigned : List Attribute}
    (shown :
      List.Forall₂ (fun name held => document.fullName held = .ok name ∧ told name held)
      names attributes) (distinct : names.Nodup)
    (known : document.uri? added.ns = .ok uri)
    (answered : document.assign added uri attributes = .ok assigned) :
    List.Forall₂
      (fun name held => document.fullName held = .ok name ∧
        if name = (added.name, uri) then held = added else told name held)
      (if (added.name, uri) ∈ names then names else names ++ [(added.name, uri)])
      assigned := by
  have addedName : document.fullName added = .ok (added.name, uri) :=
    fullName_eq_ok_iff.mpr ⟨rfl, known⟩
  induction shown generalizing assigned with
  | nil =>
      cases answered
      simp [addedName]
  | @cons name held names attributes shows others induction =>
      rcases List.nodup_cons.mp distinct with ⟨fresh, distinct⟩
      rcases fullName_eq_ok_iff.mp shows.1 with ⟨sameName, heldKnown⟩
      by_cases same : name = (added.name, uri)
      · -- The attribute is replaced, and no other one has its name.
        have replaced : document.assign added uri (held :: attributes) =
            .ok (added :: attributes) := by
          simp [assign, sameName, heldKnown, same]
        cases replaced.symm.trans answered
        rw [if_pos (by simp [same])]
        apply List.Forall₂.cons
        · exact ⟨same ▸ addedName, by simp [same]⟩
        · apply (forall₂_mem others).imp
          rintro other otherHeld ⟨member, _, otherName, otherTold⟩
          have different : other ≠ (added.name, uri) := fun equal =>
            fresh (same.trans equal.symm ▸ member)
          exact ⟨otherName, by rwa [if_neg different]⟩
      · have passed : document.assign added uri (held :: attributes) = do
            return held :: (← document.assign added uri attributes) := by
          rw [assign]
          split
          · next equalName =>
              have otherUri : name.2 ≠ uri := fun equalUri =>
                same (Prod.ext (sameName.symm.trans equalName) equalUri)
              rw [heldKnown, Reading.ok_bind, if_neg otherUri]
          · rfl
        rw [passed] at answered
        rcases Reading.bind_eq_ok_iff.mp answered with ⟨rest, restAssigned, same'⟩
        cases same'
        have below := induction distinct restAssigned
        have headShows : document.fullName held = .ok name ∧
            if name = (added.name, uri) then held = added else told name held :=
          ⟨shows.1, by rw [if_neg same]; exact shows.2⟩
        by_cases member : (added.name, uri) ∈ names
        · rw [if_pos member] at below
          rw [if_pos (List.mem_cons_of_mem _ member)]
          exact .cons headShows below
        · rw [if_neg member] at below
          rw [if_neg (by simp [member, Ne.symm same])]
          exact .cons headShows below

theorem ShowsLast.assign {settings : List Setting} {attributes assigned : List Attribute}
    {added : Attribute} {uri : Option String}
    (shows : document.ShowsLast settings attributes)
    (known : document.uri? added.ns = .ok uri)
    (answered : document.assign added uri attributes = .ok assigned) :
    document.ShowsLast (settings ++ [⟨added, uri⟩]) assigned := by
  have assigns := forall₂_assign shows (nodup_eraseDups _) known answered
  rw [ShowsLast, List.map_append, List.map_singleton, eraseDups_append_singleton]
  simp only [lastSet_append_singleton_iff]
  simp only [List.mem_eraseDups] at assigns
  exact assigns

theorem ShowsLast.of_extends {settings : List Setting} {attributes : List Attribute}
    (shows : document.ShowsLast settings attributes)
    (extended : changed.Extends document) :
    changed.ShowsLast settings attributes :=
  List.Forall₂.imp (fun _ _ shown => ⟨extended.fullName shown.1, shown.2⟩) shows

/-! ## One operation -/

theorem attributeList_of_element {element : Element}
    (held : document.content id = .ok (.element element)) :
    document.attributeList id = element.attributes := by
  rcases content_eq_ok_iff.mp held with ⟨node, found, shape⟩
  simp [attributeList, found, shape, Content.element?]

theorem attributeList_allocate {content : Content} (fresh : content.IsFresh) :
    (document.allocate content).attributeList id = document.attributeList id := by
  unfold attributeList
  rw [nodes_allocate]
  split
  · next new =>
      subst new
      rw [nodes_size_eq_none]
      cases content with
      | element held =>
          have blank : held = { name := held.name } := fresh
          rw [blank]
          rfl
      | _ => rfl
  · rfl

theorem attributeList_attach (parent child : NodeId) :
    (document.attach parent child).attributeList id = document.attributeList id := by
  unfold attributeList
  rw [nodes_attach]
  cases document.nodes[id]? <;> rfl

theorem attributeList_line (target : NodeId) (line : Nat) :
    (document.modify target fun node => { node with line }).attributeList id =
      document.attributeList id := by
  unfold attributeList
  rw [nodes_modify]
  split <;> cases document.nodes[id]? <;> rfl

theorem attributeList_putElement_other {target : NodeId} (replacement : Element)
    (different : id ≠ target) :
    (document.putElement target replacement).attributeList id =
      document.attributeList id := by
  unfold attributeList
  rw [nodes_putElement]
  cases document.nodes[id]? <;> simp [different]

theorem attributeList_putElement {target : NodeId} {element replacement : Element}
    (held : document.content target = .ok (.element element))
    (same : replacement.attributes = element.attributes) :
    (document.putElement target replacement).attributeList id =
      document.attributeList id := by
  by_cases atTarget : id = target
  · subst atTarget
    rw [attributeList_of_element (content_putElement replacement held), same,
      attributeList_of_element held]
  · exact attributeList_putElement_other replacement atTarget

abbrev Sparing {α : Type} (edit : Edit α) : Prop :=
  Edit.Stepwise (fun before after => ∀ id,
    after.attributeList id = before.attributeList id) edit

theorem Sparing.attributeList {α : Type} {edit : Edit α} (sparing : Sparing edit)
    (document : Document) (id : NodeId) :
    (edit.outcome document).2.attributeList id = document.attributeList id := by
  have steps := sparing document
  generalize (edit.outcome document).2 = changed at steps
  induction steps with
  | refl => rfl
  | tail _ step induction => exact (step id).trans induction

theorem sparing_allocate {content : Content} (fresh : content.IsFresh) :
    Sparing (Edit.allocate content) :=
  fun _ => .single fun _ => attributeList_allocate fresh

theorem sparing_appendChild (parent child : NodeId) :
    Sparing (Edit.appendChild parent child) := by
  intro document
  rcases Edit.appendChild_cases parent child document with joinable | refused | faults
  · rw [Edit.outcome_appendChild_of joinable]
    exact .single fun _ => attributeList_attach parent child
  · exact refused.steps
  · exact faults.steps

theorem sparing_setLine (id : NodeId) (line : Nat) : Sparing (Edit.setLine id line) := by
  intro document
  cases found : document.nodes[id]? with
  | none => exact Edit.Faults.steps ((Edit.faults_read (node_of_none found)).bind _)
  | some node =>
      simp only [Edit.setLine, Edit.outcome_bind, Edit.outcome_get, Edit.outcome_read,
        node_of found]
      exact .single fun _ => attributeList_line id line

theorem sparing_setNamespace (id : NodeId) (ns : Option Handle) :
    Sparing (Edit.setNamespace id ns) := by
  intro document
  rcases Edit.elementAt_cases id document with ⟨element, held⟩ | refused | ⟨_, faults⟩
  · rw [Edit.outcome_setNamespace_of held]
    exact .single fun _ => attributeList_putElement held rfl
  · exact (refused.bind _).steps
  · exact (faults.bind _).steps

theorem sparing_declare (id : NodeId) (nsPrefix : Option String) (uri : String) :
    Sparing (Edit.declare id nsPrefix uri) := by
  intro document
  rcases Edit.declare_cases id nsPrefix uri document with
    ⟨element, held, declarable⟩ | refused | ⟨_, faults⟩
  · rw [Edit.outcome_declare_of held declarable]
    exact .single fun _ => attributeList_putElement held rfl
  · exact refused.steps
  · exact faults.steps

theorem attributeList_following (silent : operation.setting? document id = none) :
    (document.following operation).attributeList id = document.attributeList id := by
  have spared (sparing : Sparing operation.edit) :
      (document.following operation).attributeList id = document.attributeList id :=
    sparing.attributeList document id
  cases operation with
  | newElement name =>
      exact spared (.map _ (sparing_allocate (Content.isFresh_element name)))
  | newText | newComment | newInstruction =>
      exact spared (.map _ (sparing_allocate trivial))
  | appendChild parent child => exact spared (sparing_appendChild parent child)
  | appendElement parent name =>
      apply spared
      apply Edit.Stepwise.map
      apply Edit.Stepwise.bind (sparing_allocate (Content.isFresh_element name))
      exact fun child => .bind (sparing_appendChild parent child) fun _ => .pure child
  | setLine target line => exact spared (sparing_setLine target line)
  | setNamespace target ns => exact spared (sparing_setNamespace target ns)
  | declare target nsPrefix uri =>
      exact spared (.map _ (sparing_declare target nsPrefix uri))
  | clone => rfl
  | setAttribute target name ns value =>
      rw [following, Operation.edit]
      rcases Edit.setAttribute_cases target name ns value document with
        ⟨element, uri, attributes, held, known, assigned⟩ | ⟨_, refused⟩ | ⟨_, faults⟩
      · have accepted := Edit.outcome_setAttribute_of held known assigned
        have different : target ≠ id := by
          simpa [Operation.setting?, known, accepted] using silent
        rw [accepted]
        exact attributeList_putElement_other _ different.symm
      · rw [refused]
      · rw [faults]

theorem assigned_of_setting {setting : Setting}
    (sets : operation.setting? document id = some setting) :
    document.uri? setting.held.ns = .ok setting.uri ∧
      document.assign setting.held setting.uri (document.attributeList id) =
        .ok ((document.following operation).attributeList id) := by
  cases operation with
  | setAttribute target name ns value =>
      rcases Edit.setAttribute_cases target name ns value document with
        ⟨element, uri, attributes, held, known, assigned⟩ | ⟨_, refused⟩ | ⟨_, faults⟩
      · have accepted := Edit.outcome_setAttribute_of held known assigned
        simp only [Operation.setting?, known, accepted] at sets
        split at sets
        · next same =>
            cases sets
            subst same
            refine ⟨known, ?_⟩
            rw [attributeList_of_element held, assigned, following, Operation.edit,
              accepted, attributeList_of_element (content_putElement _ held)]
        · cases sets
      · simp only [Operation.setting?, refused] at sets
        split at sets <;> simp_all
      · simp only [Operation.setting?, faults] at sets
        split at sets <;> simp_all
  | _ => cases sets

theorem ShowsLast.following {settings : List Setting}
    (shows : document.ShowsLast settings (document.attributeList id))
    (operation : Operation) :
    (document.following operation).ShowsLast
      (settings ++ (operation.setting? document id).toList)
      ((document.following operation).attributeList id) := by
  have extended := extends_following document operation
  cases sets : operation.setting? document id with
  | none =>
      rw [attributeList_following sets, Option.toList_none, List.append_nil]
      exact shows.of_extends extended
  | some setting =>
      rcases assigned_of_setting sets with ⟨known, assigned⟩
      exact (shows.assign known assigned).of_extends extended

/-! ## All operations -/

/-- Where operations are given nodes that are there and none ends in a fault, this is the
document that they lead to. -/
theorem History.eq_ofOperations {operations : List Operation}
    (history : History operations document) : document = ofOperations operations := by
  induction history with
  | start => rfl
  | next _ _ left induction =>
      rcases Operation.leaves_eq_ok_iff.mp left with ⟨answer, result⟩
      have changed := congrArg Prod.snd (Edit.on_eq_ok_iff.mp result)
      rw [ofOperations, List.foldl_append, ← ofOperations, ← induction]
      exact changed.symm

theorem showsLast_foldl {settings : List Setting}
    (shows : document.ShowsLast settings (document.attributeList id))
    (operations : List Operation) :
    (operations.foldl following document).ShowsLast
      (settings ++ document.settingsOn id operations)
      ((operations.foldl following document).attributeList id) := by
  induction operations generalizing document settings with
  | nil => simpa [settingsOn] using shows
  | cons operation rest induction =>
      rw [List.foldl_cons, settingsOn, ← List.append_assoc]
      exact induction (shows.following operation)

theorem showsLast_ofOperations (operations : List Operation) (id : NodeId) :
    (ofOperations operations).ShowsLast (Document.empty.settingsOn id operations)
      ((ofOperations operations).attributeList id) := by
  have start : Document.empty.ShowsLast [] (Document.empty.attributeList id) := by
    have nothing : Document.empty.attributeList id = [] := by cases id <;> rfl
    rw [nothing]
    exact .nil
  exact showsLast_foldl start operations

theorem changes_foldl (document : Document) (operations : List Operation) :
    document.Changes (operations.foldl following document) := by
  induction operations generalizing document with
  | nil => exact .refl
  | cons operation rest induction =>
      exact (operation.stepwise document).trans (induction (document.following operation))

theorem settingsOn_eq_nil {operations : List Operation}
    (silent : ∀ operation ∈ operations, ∀ name ns value,
      operation ≠ .setAttribute id name ns value) (document : Document) :
    document.settingsOn id operations = [] := by
  induction operations generalizing document with
  | nil => rfl
  | cons operation rest induction =>
      have others :=
        induction (fun other member => silent other (List.mem_cons_of_mem _ member))
          (document.following operation)
      have nothing : operation.setting? document id = none := by
        cases operation with
        | setAttribute target name ns value =>
            have different : target ≠ id := fun same =>
              silent _ List.mem_cons_self name ns value (same ▸ rfl)
            simp only [Operation.setting?, if_neg different]
            split <;> rfl
        | _ => rfl
      rw [settingsOn, nothing, others]
      rfl

theorem attributeList_foldl (document : Document) {operations : List Operation}
    (silent : document.settingsOn id operations = []) :
    (operations.foldl following document).attributeList id =
      document.attributeList id := by
  induction operations generalizing document with
  | nil => rfl
  | cons operation rest induction =>
      rcases List.append_eq_nil_iff.mp silent with ⟨nothing, others⟩
      rw [List.foldl_cons, induction (document.following operation) others]
      exact attributeList_following (Option.toList_eq_nil_iff.mp nothing)

theorem ShowsLast.mapM_fullName {settings : List Setting} {attributes : List Attribute}
    (shows : document.ShowsLast settings attributes) :
    attributes.mapM document.fullName = .ok (settings.map Setting.fullName).eraseDups :=
  Reading.mapM_of_forall₂ (shows.flip.imp fun _ _ shown => shown.1)

theorem exists_later {operations : List Operation} {element : Element}
    (held : (ofOperations operations).content id = .ok (.element element))
    (later : List Operation) :
    ∃ grown, (ofOperations (operations ++ later)).content id = .ok (.element grown) ∧
      grown.attributes =
        (later.foldl following (ofOperations operations)).attributeList id := by
  have same : ofOperations (operations ++ later) =
      later.foldl following (ofOperations operations) := List.foldl_append
  rcases (changes_foldl (ofOperations operations) later).element held with
    ⟨grown, grownHeld, _⟩
  exact ⟨grown, same ▸ grownHeld, (attributeList_of_element grownHeld).symm⟩

/-- The attributes of an element are what has been set on it, and this lasts. -/
structure KeepsSettings (operations : List Operation) (id : NodeId) (element : Element) :
    Prop where
  known : ∀ held ∈ element.attributes, ∀ handle, held.ns = some handle →
    ∃ binding, (ofOperations operations).binding handle = .ok binding
  different : ∃ names,
    element.attributes.mapM (ofOperations operations).fullName = .ok names ∧
    names.Nodup
  /-- There is one attribute for each name that was set, in the order in which they were
  first set, and each is as it was set last. -/
  shows : (ofOperations operations).ShowsLast (Document.empty.settingsOn id operations)
    element.attributes
  /-- Whatever operations follow, the names stay what they are and where they are, and no
  two come to be the same. -/
  lasting : ∀ later, ∃ grown names more,
    (ofOperations (operations ++ later)).content id = .ok (.element grown) ∧
      element.attributes.mapM (ofOperations operations).fullName = .ok names ∧
      grown.attributes.mapM (ofOperations (operations ++ later)).fullName =
        .ok (names ++ more) ∧ (names ++ more).Nodup
  spared : ∀ later, (∀ operation ∈ later, ∀ name ns value,
      operation ≠ .setAttribute id name ns value) →
    ∃ grown, (ofOperations (operations ++ later)).content id = .ok (.element grown) ∧
      grown.attributes = element.attributes

/-- In every document that operations lead to, the attributes of an element are what has
been set on it. -/
theorem keepsSettings_ofOperations {operations : List Operation} {element : Element}
    (held : (ofOperations operations).content id = .ok (.element element)) :
    KeepsSettings operations id element := by
  have shows := showsLast_ofOperations operations id
  rw [attributeList_of_element held] at shows
  refine ⟨?known, ?different, shows, ?lasting, ?spared⟩
  case known =>
    intro named member handle own
    rcases exists_of_mem_right shows member with ⟨name, _, known, _⟩
    have denoted := (fullName_eq_ok_iff.mp known).2
    rw [own] at denoted
    rcases Reading.bind_eq_ok_iff.mp denoted with ⟨binding, found, _⟩
    exact ⟨binding, found⟩
  case different => exact ⟨_, shows.mapM_fullName, nodup_eraseDups _⟩
  case lasting =>
    intro later
    rcases exists_later held later with ⟨grown, grownHeld, _⟩
    have showsLater := showsLast_ofOperations (operations ++ later) id
    rw [attributeList_of_element grownHeld] at showsLater
    have told := showsLater.mapM_fullName
    have distinct := nodup_eraseDups
      ((Document.empty.settingsOn id (operations ++ later)).map Setting.fullName)
    rw [settingsOn_append, List.map_append, List.eraseDups_append] at told distinct
    exact ⟨grown, _, _, grownHeld, shows.mapM_fullName, told, distinct⟩
  case spared =>
    intro later silent
    rcases exists_later held later with ⟨grown, grownHeld, same⟩
    refine ⟨grown, grownHeld, ?_⟩
    rw [same, attributeList_foldl _ (settingsOn_eq_nil silent _),
      attributeList_of_element held]

/-- One URI under two prefixes and on two elements. The attribute is set three times,
once without a namespace; then its prefix is declared again nearer by, and its element is
renamed. -/
def twiceNamed : List Operation :=
  [.appendElement 0 "outer", .declare 1 (some "p") "urn:a", .appendElement 1 "inner",
    .declare 2 (some "q") "urn:a", .setAttribute 2 "x" (some ⟨1, 0⟩) "first",
    .setAttribute 2 "x" none "plain", .setAttribute 2 "x" (some ⟨2, 0⟩) "last",
    .setAttribute 2 "x" (some ⟨2, 7⟩) "lost", .declare 2 (some "p") "urn:b",
    .setNamespace 2 (some ⟨2, 1⟩)]

theorem keepsSettings_ofOperations_twiceNamed :
    ∃ element, (ofOperations twiceNamed).content 2 = .ok (.element element) ∧
      element.attributes = [⟨"x", some ⟨2, 0⟩, "last"⟩, ⟨"x", none, "plain"⟩] ∧
      KeepsSettings twiceNamed 2 element := by
  have held : (ofOperations twiceNamed).content 2 = .ok (.element
      ⟨"inner", some ⟨2, 1⟩, [⟨some "q", "urn:a"⟩, ⟨some "p", "urn:b"⟩],
        [⟨"x", some ⟨2, 0⟩, "last"⟩, ⟨"x", none, "plain"⟩]⟩) := by
    decide +kernel
  exact ⟨_, held, rfl, keepsSettings_ofOperations held⟩

end Document

end ResultTree
