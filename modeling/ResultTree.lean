import ResultTree.Alias.Declaration
import ResultTree.Alias.Table
import ResultTree.Diagnostic.Basic
import ResultTree.Diagnostic.Code
import ResultTree.Diagnostic.Queue
import ResultTree.Document.Basic
import ResultTree.Document.Builder
import ResultTree.Document.Edit
import ResultTree.Document.Scope
import ResultTree.Document.Traversal
import ResultTree.Fault
import ResultTree.Key.Cache
import ResultTree.Key.Declaration
import ResultTree.Key.Definition
import ResultTree.Key.Expression
import ResultTree.Key.Grammar
import ResultTree.Key.Index
import ResultTree.Key.Lexeme
import ResultTree.Key.Matching
import ResultTree.Key.Name
import ResultTree.Key.Selection
import ResultTree.Key.Session
import ResultTree.Namespace
import ResultTree.OrderedMap
import ResultTree.Proofs.Alias.Declaration
import ResultTree.Proofs.Alias.Registration
import ResultTree.Proofs.Builder.Closing
import ResultTree.Proofs.Builder.Names
import ResultTree.Proofs.Builder.Numbering
import ResultTree.Proofs.Builder.Refusals
import ResultTree.Proofs.Builder.Settling
import ResultTree.Proofs.Diagnostic.Queue
import ResultTree.Proofs.Diagnostic.Requests
import ResultTree.Proofs.Document.Ascent
import ResultTree.Proofs.Document.Bindings
import ResultTree.Proofs.Document.Change
import ResultTree.Proofs.Document.Descent
import ResultTree.Proofs.Document.Generations
import ResultTree.Proofs.Document.Handles
import ResultTree.Proofs.Document.Interlinking
import ResultTree.Proofs.Document.Links
import ResultTree.Proofs.Document.Loops
import ResultTree.Proofs.Document.Nodes
import ResultTree.Proofs.Document.Operation
import ResultTree.Proofs.Document.Outline
import ResultTree.Proofs.Document.Preorder
import ResultTree.Proofs.Document.Resemblance
import ResultTree.Proofs.Document.Scope
import ResultTree.Proofs.Document.Searches
import ResultTree.Proofs.Document.Settings
import ResultTree.Proofs.Harmless
import ResultTree.Proofs.Key.Complaint
import ResultTree.Proofs.Key.Declaration
import ResultTree.Proofs.Key.Derivation
import ResultTree.Proofs.Key.Evaluation
import ResultTree.Proofs.Key.Lexing
import ResultTree.Proofs.Key.Listing
import ResultTree.Proofs.Key.Location
import ResultTree.Proofs.Key.Lookup
import ResultTree.Proofs.Key.Matching
import ResultTree.Proofs.Key.Parsing
import ResultTree.Proofs.Key.Registration
import ResultTree.Proofs.Key.Resemblance
import ResultTree.Proofs.Key.Selection
import ResultTree.Proofs.Key.Session
import ResultTree.Proofs.Key.Steps
import ResultTree.Proofs.Key.Tiling
import ResultTree.Proofs.Permanence
import ResultTree.Proofs.Reading
import ResultTree.Proofs.Stylesheet.Compilation
import ResultTree.Proofs.Stylesheet.Compiled
import ResultTree.Proofs.Stylesheet.Indifference
import ResultTree.Proofs.Stylesheet.Meaning
import ResultTree.Proofs.Stylesheet.Registry
import ResultTree.Proofs.Stylesheet.Rejection
import ResultTree.Proofs.Stylesheet.Statement
import ResultTree.Proofs.Transform.AliasedAttributes
import ResultTree.Proofs.Transform.AttributeLists
import ResultTree.Proofs.Transform.Bareness
import ResultTree.Proofs.Transform.Changes
import ResultTree.Proofs.Transform.Cloning
import ResultTree.Proofs.Transform.Correspondence
import ResultTree.Proofs.Transform.Crowding
import ResultTree.Proofs.Transform.Declarations
import ResultTree.Proofs.Transform.DeepCopy
import ResultTree.Proofs.Transform.Distinctness
import ResultTree.Proofs.Transform.Environment
import ResultTree.Proofs.Transform.Following
import ResultTree.Proofs.Transform.FreePrefix
import ResultTree.Proofs.Transform.Graft
import ResultTree.Proofs.Transform.Identity
import ResultTree.Proofs.Transform.Keys
import ResultTree.Proofs.Transform.Naming
import ResultTree.Proofs.Transform.Node
import ResultTree.Proofs.Transform.Page
import ResultTree.Proofs.Transform.PlainAttributes
import ResultTree.Proofs.Transform.Prefixing
import ResultTree.Proofs.Transform.Refusal
import ResultTree.Proofs.Transform.Renaming
import ResultTree.Proofs.Transform.Repetition
import ResultTree.Proofs.Transform.Resolution
import ResultTree.Proofs.Transform.Shadowing
import ResultTree.Proofs.Transform.Site
import ResultTree.Proofs.Transform.Tree
import ResultTree.Proofs.Transform.Turns
import ResultTree.Proofs.Transform.Writing
import ResultTree.Stylesheet.Basic
import ResultTree.Stylesheet.Registration
import ResultTree.Transform.Copy
import ResultTree.Transform.Namespace
import ResultTree.Transform.Run
