import ResultTree.Key.Declaration
import ResultTree.Proofs.Harmless

namespace ResultTree.Key

/-! Registering a key looks at nothing but the node that declares it and the scope
there. Reading an expression asks that scope for prefixes and cannot fault in any
other way, whatever is written. -/

def PrefixScope.FaultsOnly (kind : Fault → Prop) (scope : PrefixScope) : Prop :=
  ∀ nsPrefix, Reading.FaultsOnly kind (scope nsPrefix)

variable {α : Type} {scope : PrefixScope} {kind : Fault → Prop}

/-! ## Reading expressions -/

theorem NameTest.faultsOnly_read (only : scope.FaultsOnly kind) (lexemes : List Lexeme) :
    Attempt.FaultsOnly kind (NameTest.read scope lexemes) := by
  unfold NameTest.read
  split
  · exact .pure _
  · apply (Attempt.FaultsOnly.read (only _)).bind
    intro found
    split
    · exact .throw _
    · split
      · exact .pure _
      · exact .pure _
      · exact .throw _
  · exact .pure _
  · exact .throw _

theorem NodeTest.faultsOnly_read (only : scope.FaultsOnly kind) (expected : Expected)
    (lexemes : List Lexeme) :
    Attempt.FaultsOnly kind (NodeTest.read scope expected lexemes) := by
  unfold NodeTest.read
  split
  · split
    · exact .throw _
    · exact .pure _
    · exact .throw _
  · exact (NameTest.faultsOnly_read only _).bind fun _ => .pure _
  · exact .pure _
  · exact .throw _

theorem Pattern.faultsOnly_readStep (only : scope.FaultsOnly kind)
    (lexemes : List Lexeme) :
    Attempt.FaultsOnly kind (Pattern.readStep scope lexemes) := by
  unfold Pattern.readStep
  split
  · exact .throw _
  · exact .throw _
  · exact .throw _
  · exact NodeTest.faultsOnly_read only _ _

theorem Step.faultsOnly_read (only : scope.FaultsOnly kind) (lexemes : List Lexeme) :
    Attempt.FaultsOnly kind (Step.read scope lexemes) := by
  unfold Step.read
  split
  · exact .pure _
  · exact .pure _
  · exact (NameTest.faultsOnly_read only _).bind fun _ => .pure _
  · exact (NodeTest.faultsOnly_read only _ _).bind fun _ => .pure _

theorem faultsOnly_readSeparated (separator : Token)
    {item : List Lexeme → Parse (α × Nat)}
    (only : ∀ lexemes, Attempt.FaultsOnly kind (item lexemes)) (lexemes : List Lexeme) :
    Attempt.FaultsOnly kind (readSeparated separator item lexemes) := by
  induction bound : lexemes.length using Nat.strongRecOn generalizing lexemes with
  | ind length induction =>
      unfold readSeparated
      apply (only lexemes).bind
      intro first
      simp only
      split
      · exact .pure _
      · next next after rest =>
          have shorter : after.length < length := by
            have lengths := congrArg List.length rest
            simp only [List.length_drop, List.length_cons] at lengths
            omega
          split
          · exact (induction _ shorter after rfl).bind fun _ => .pure _
          · exact .pure _

theorem faultsOnly_readWhole {read : List Lexeme → Parse (α × Nat)}
    (only : ∀ lexemes, Attempt.FaultsOnly kind (read lexemes)) (source : String) :
    Attempt.FaultsOnly kind (readWhole read source) := by
  unfold readWhole
  refine Attempt.FaultsOnly.bind (.answer _) fun lexemes => ?_
  apply (only lexemes).bind
  intro result
  simp only
  split
  · exact .pure _
  · exact .throw _

theorem Definition.faultsOnly_compile (only : scope.FaultsOnly kind) (name : Name)
    (matchSource useSource : String) :
    Attempt.FaultsOnly kind (Definition.compile name matchSource useSource scope) := by
  have pattern : Attempt.FaultsOnly kind (Pattern.parse matchSource scope) :=
    .map _ (faultsOnly_readWhole (faultsOnly_readSeparated _
      (faultsOnly_readSeparated _ (Pattern.faultsOnly_readStep only))) _)
  have use : Attempt.FaultsOnly kind (UseExpression.parse useSource scope) :=
    .map
      _ (faultsOnly_readWhole (faultsOnly_readSeparated _ (Step.faultsOnly_read only)) _)
  exact (pattern.adapt _).bind fun _ => (use.adapt _).bind fun _ => .pure _

/-! ## Registering a declaration -/

variable {document : Document} {node : NodeId}

theorem PrefixScope.faultsOnly_ofNode (linked : document.Linked)
    (searchable : document.Searchable kind node) :
    (PrefixScope.ofNode document node).FaultsOnly kind :=
  fun nsPrefix => linked.uri?_findPrefix searchable (some nsPrefix)

theorem Declaration.faultsOnly_read (known : document.AllKnown)
    (inside : node < document.size) :
    Reading.FaultsOnly kind (Declaration.read document node) := by
  rcases Document.exists_node_iff.mpr inside with ⟨held, found⟩
  have value (name : String) :
      Reading.FaultsOnly kind (document.attributeValue? node name transformUri) :=
    known.attributeValue? inside name transformUri
  refine Reading.FaultsOnly.bind (.of_eq_ok (Document.line_of found)) fun _ _ => ?_
  refine (value "name").bind fun _ _ => (value "match").bind fun _ _ => ?_
  exact (value "use").bind fun _ _ => .ok _

theorem Declaration.faultsOnly_definition (declaration : Declaration)
    (only : scope.FaultsOnly kind) :
    Attempt.FaultsOnly kind (declaration.definition scope) := by
  have expanded (qname : String) :
      Attempt.FaultsOnly kind (declaration.expand scope qname) := by
    unfold expand
    split
    · exact .pure _
    · apply (Attempt.FaultsOnly.read (only _)).bind
      intro found
      cases found with
      | none => exact .throw _
      | some uri => exact .pure _
  unfold definition
  split
  · apply ((expanded _).adapt _).bind
    intro name
    exact (Definition.faultsOnly_compile only name _ _).adapt _
  · exact .throw _

theorem Definitions.faultsOnly_register (linked : document.Linked)
    (known : document.AllKnown) (inside : node < document.size)
    (searchable : document.Searchable kind node) (definitions : Definitions) :
    Reading.FaultsOnly kind (definitions.register document node) := by
  refine Reading.FaultsOnly.bind (Declaration.faultsOnly_read known inside)
    fun declaration _ => ?_
  have defined := declaration.faultsOnly_definition
    (PrefixScope.faultsOnly_ofNode linked searchable)
  apply Reading.FaultsOnly.bind defined
  intro result _
  cases result <;> exact .ok _

end ResultTree.Key
