import ContractBlocks.Block.Basic
import ContractBlocks.Block.EditError
import ContractBlocks.Block.Identity
import ContractBlocks.Block.Patch
import ContractBlocks.Block.Seed
import ContractBlocks.Block.Signature
import ContractBlocks.Block.Vocabulary
import ContractBlocks.Command.Arguments
import ContractBlocks.Command.Complaint
import ContractBlocks.Command.Options
import ContractBlocks.Command.Run
import ContractBlocks.Contract.Basic
import ContractBlocks.Contract.Project
import ContractBlocks.Digest.Blake3
import ContractBlocks.Document.Block
import ContractBlocks.Document.Project
import ContractBlocks.Document.Report
import ContractBlocks.Document.Script
import ContractBlocks.History.Edit
import ContractBlocks.History.Observer
import ContractBlocks.History.Shared
import ContractBlocks.History.Store
import ContractBlocks.History.Timeline
import ContractBlocks.History.Workspace
import ContractBlocks.Inheritance.Graph
import ContractBlocks.Inheritance.Issue
import ContractBlocks.Inheritance.Linearization
import ContractBlocks.Json.Basic
import ContractBlocks.Json.Decoder
import ContractBlocks.Json.Reader
import ContractBlocks.Json.Token
import ContractBlocks.Json.Writer
import ContractBlocks.Main
import ContractBlocks.Number.Binary64
import ContractBlocks.Number.Layout
import ContractBlocks.Number.Numeral
import ContractBlocks.Number.Shortest
import ContractBlocks.Override.Basic
import ContractBlocks.Proofs.Block.Patch
import ContractBlocks.Proofs.Command.Check
import ContractBlocks.Proofs.Command.Generate
import ContractBlocks.Proofs.Contract.Foreign
import ContractBlocks.Proofs.Contract.Growth
import ContractBlocks.Proofs.Contract.Registry
import ContractBlocks.Proofs.Document.Block
import ContractBlocks.Proofs.Document.Project
import ContractBlocks.Proofs.Document.Report
import ContractBlocks.Proofs.Document.RoundTrip
import ContractBlocks.Proofs.Document.Script
import ContractBlocks.Proofs.History.Attempt
import ContractBlocks.Proofs.History.Clients
import ContractBlocks.Proofs.History.Distinct
import ContractBlocks.Proofs.History.Isolation
import ContractBlocks.Proofs.History.Line
import ContractBlocks.Proofs.History.Script
import ContractBlocks.Proofs.History.Session
import ContractBlocks.Proofs.History.Sound
import ContractBlocks.Proofs.History.Subscription
import ContractBlocks.Proofs.Inheritance.Ambiguity
import ContractBlocks.Proofs.Inheritance.Components
import ContractBlocks.Proofs.Inheritance.Detectors
import ContractBlocks.Proofs.Inheritance.Diamonds
import ContractBlocks.Proofs.Inheritance.Linearization
import ContractBlocks.Proofs.Inheritance.Loops
import ContractBlocks.Proofs.Inheritance.PostOrder
import ContractBlocks.Proofs.Inheritance.Reach
import ContractBlocks.Proofs.Inheritance.Relisting
import ContractBlocks.Proofs.Inheritance.Repeats
import ContractBlocks.Proofs.Inheritance.Rivals
import ContractBlocks.Proofs.Inheritance.Shadowing
import ContractBlocks.Proofs.Inheritance.Signatures
import ContractBlocks.Proofs.Json.Canonical
import ContractBlocks.Proofs.Json.Faithful
import ContractBlocks.Proofs.Json.Lexing
import ContractBlocks.Proofs.Json.Reading
import ContractBlocks.Proofs.Json.Record
import ContractBlocks.Proofs.Json.Structure
import ContractBlocks.Proofs.Number.Literal
import ContractBlocks.Proofs.Override.Toggle
import ContractBlocks.Proofs.Security.Comment
import ContractBlocks.Proofs.Security.Hazard
import ContractBlocks.Proofs.Source.Assembly
import ContractBlocks.Proofs.Source.Bodies
import ContractBlocks.Proofs.Source.Layout
import ContractBlocks.Proofs.Source.Overrides
import ContractBlocks.Proofs.Text.Lines
import ContractBlocks.Proofs.Text.Returns
import ContractBlocks.Proofs.Text.Search
import ContractBlocks.Security.Checker
import ContractBlocks.Security.CodeLine
import ContractBlocks.Security.Finding
import ContractBlocks.Security.Rule
import ContractBlocks.Source.Contract
import ContractBlocks.Source.Fragment
import ContractBlocks.Source.Generated
import ContractBlocks.Source.Indent
import ContractBlocks.Text.Alphanumeric
import ContractBlocks.Text.Blank
import ContractBlocks.Text.Identifier
import ContractBlocks.Text.Lines
import ContractBlocks.Text.Search
import ContractBlocks.Validation.Block
import ContractBlocks.Validation.Contract
import ContractBlocks.Validation.Violation
import ContractBlocks.Proofs.Source.Composition
import ContractBlocks.Proofs.Source.Synthesis
import ContractBlocks.Proofs.Override.SuperCall
import ContractBlocks.Proofs.Validation.Contract
import ContractBlocks.Proofs.Block.Creation
import ContractBlocks.Proofs.Security.Operator
import ContractBlocks.Proofs.Security.Reentrancy
import ContractBlocks.Proofs.Security.ConstantCandidate
import ContractBlocks.Proofs.Json.Meaning
import ContractBlocks.Proofs.Document.Foreign
import ContractBlocks.Proofs.Security.Literal
import ContractBlocks.Proofs.Security.Addition
import ContractBlocks.Proofs.Security.Locality
import ContractBlocks.Proofs.Security.Word
import ContractBlocks.Proofs.Security.Lexeme
import ContractBlocks.Proofs.Security.Keyword
import ContractBlocks.Proofs.Inheritance.SignatureKey
