import InterfaceLang.Analysis
import InterfaceLang.Comment
import InterfaceLang.Diagnostic.Basic
import InterfaceLang.Diagnostic.Failure
import InterfaceLang.Diagnostic.ImportError
import InterfaceLang.Diagnostic.SyntaxError
import InterfaceLang.Diagnostic.Violation
import InterfaceLang.Directive
import InterfaceLang.Disk
import InterfaceLang.Disk.FileTree
import InterfaceLang.Disk.ReadFailure
import InterfaceLang.Document
import InterfaceLang.Document.Json
import InterfaceLang.Document.Lookalike
import InterfaceLang.Document.Yaml
import InterfaceLang.Event
import InterfaceLang.Grammar.Productions
import InterfaceLang.Grammar.Reader
import InterfaceLang.Imports.Registry
import InterfaceLang.Imports.Resolve
import InterfaceLang.Imports.Session
import InterfaceLang.Model
import InterfaceLang.Model.Document
import InterfaceLang.Model.Groups
import InterfaceLang.Model.Lowering
import InterfaceLang.Model.Qualify
import InterfaceLang.Name
import InterfaceLang.Parser
import InterfaceLang.Path
import InterfaceLang.Position
import InterfaceLang.Proofs.Comment.Agreement
import InterfaceLang.Proofs.Comment.Documentation
import InterfaceLang.Proofs.Comment.Run
import InterfaceLang.Proofs.Comment.Scan
import InterfaceLang.Proofs.Diagnostic.Records
import InterfaceLang.Proofs.Diagnostic.Spots
import InterfaceLang.Proofs.Document.Determination
import InterfaceLang.Proofs.Grammar.Acceptance
import InterfaceLang.Proofs.Grammar.Attempts
import InterfaceLang.Proofs.Grammar.Complaints
import InterfaceLang.Proofs.Grammar.Derivation
import InterfaceLang.Proofs.Grammar.Lifting
import InterfaceLang.Proofs.Grammar.Names
import InterfaceLang.Proofs.Grammar.Productions
import InterfaceLang.Proofs.Grammar.Recognition
import InterfaceLang.Proofs.Grammar.TypeText
import InterfaceLang.Proofs.Imports.Bindings
import InterfaceLang.Proofs.Imports.Calls
import InterfaceLang.Proofs.Imports.Clashes
import InterfaceLang.Proofs.Imports.Consistency
import InterfaceLang.Proofs.Imports.Contribution
import InterfaceLang.Proofs.Imports.Frame
import InterfaceLang.Proofs.Imports.Graph
import InterfaceLang.Proofs.Imports.Grouping
import InterfaceLang.Proofs.Imports.Identifiers
import InterfaceLang.Proofs.Imports.Invariant
import InterfaceLang.Proofs.Imports.Labels
import InterfaceLang.Proofs.Imports.Mentions
import InterfaceLang.Proofs.Imports.Order
import InterfaceLang.Proofs.Imports.Placement
import InterfaceLang.Proofs.Imports.Positions
import InterfaceLang.Proofs.Imports.Resolution
import InterfaceLang.Proofs.Imports.Resources
import InterfaceLang.Proofs.Imports.Rings
import InterfaceLang.Proofs.Imports.Runs
import InterfaceLang.Proofs.Imports.Trace
import InterfaceLang.Proofs.Path.Meaning
import InterfaceLang.Proofs.Path.NormalForm
import InterfaceLang.Proofs.Token.Tiling
import InterfaceLang.Proofs.Token.Words
import InterfaceLang.Proofs.Token.Writing
import InterfaceLang.Proofs.Validation.Cycles
import InterfaceLang.Proofs.Validation.Importing
import InterfaceLang.Proofs.Validation.Renaming
import InterfaceLang.Proofs.Validation.Reports
import InterfaceLang.Proofs.Validation.Rings
import InterfaceLang.Proofs.Validation.Search
import InterfaceLang.Proofs.Validation.Traversal
import InterfaceLang.Proofs.Validation.Valid
import InterfaceLang.Proofs.Walk
import InterfaceLang.Text.Blank
import InterfaceLang.Text.Hidden
import InterfaceLang.Text.Quoted
import InterfaceLang.Text.Split
import InterfaceLang.Token
import InterfaceLang.Token.Lexer
import InterfaceLang.Tree
import InterfaceLang.TypeExpr
import InterfaceLang.Validation
import InterfaceLang.Validation.Cycles
import InterfaceLang.Validation.Names
import InterfaceLang.Validation.References
import InterfaceLang.Walk
