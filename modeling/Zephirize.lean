import Zephirize.Code.Basic
import Zephirize.Code.Render
import Zephirize.Decimal.Layout
import Zephirize.Decimal.Shortest
import Zephirize.Diagnostic
import Zephirize.Digest
import Zephirize.Distinct
import Zephirize.DocBlock
import Zephirize.Files.Path
import Zephirize.Files.Store
import Zephirize.Glob.Basic
import Zephirize.Glob.Reader
import Zephirize.Identifier
import Zephirize.Json.Basic
import Zephirize.Json.Number
import Zephirize.Json.Reader
import Zephirize.Json.Record
import Zephirize.Json.Token
import Zephirize.Json.Writer
import Zephirize.Lowering.Class
import Zephirize.Lowering.Expr
import Zephirize.Lowering.Locals
import Zephirize.Lowering.Method
import Zephirize.Lowering.State
import Zephirize.Lowering.Stmt
import Zephirize.Lowering.Temporary
import Zephirize.Main
import Zephirize.Program
import Zephirize.Project.Arguments
import Zephirize.Project.Config
import Zephirize.Project.Inputs
import Zephirize.Project.LogStyle
import Zephirize.Project.Report
import Zephirize.Project.Run
import Zephirize.Project.Settings
import Zephirize.Proofs.Code.Parts
import Zephirize.Proofs.Tree.Walk
import Zephirize.Registry
import Zephirize.Text.Case
import Zephirize.Text.CaseTable
import Zephirize.Text.Hex
import Zephirize.Text.Lines
import Zephirize.Text.Quoted
import Zephirize.Text.Space
import Zephirize.Tree.Declaration
import Zephirize.Tree.Expr
import Zephirize.Tree.Kind
import Zephirize.Tree.Modifiers
import Zephirize.Tree.Name
import Zephirize.Tree.Node
import Zephirize.Tree.Reader
import Zephirize.Tree.Stmt
import Zephirize.Tree.Writer
import Zephirize.Typing.ClassSet
import Zephirize.Typing.Signature
import Zephirize.Typing.Union
import Zephirize.Proofs.Lowering.Tally
import Zephirize.Proofs.Lowering.Converts
import Zephirize.Proofs.Lowering.Expressions
import Zephirize.Proofs.Lowering.Statements
import Zephirize.Proofs.Lowering.Collection
import Zephirize.Proofs.Lowering.Declarations
import Zephirize.Proofs.Lowering.Methods
import Zephirize.Proofs.Code.Shown
import Zephirize.Proofs.Lowering.Classes
import Zephirize.Proofs.Program.Registration
import Zephirize.Proofs.Program.Results
import Zephirize.Proofs.Program.Paths
import Zephirize.Proofs.Program.Order
import Zephirize.Proofs.Json.RoundTrip
import Zephirize.Proofs.Json.Records
import Zephirize.Proofs.Tree.Nodes
import Zephirize.Proofs.Tree.RoundTrip
import Zephirize.Proofs.Program.Outline
import Zephirize.Proofs.Lowering.Members
import Zephirize.Proofs.Program.Width
import Zephirize.Proofs.Files.Routes
import Zephirize.Proofs.Project.Outcome
import Zephirize.Proofs.Control.Loops
import Zephirize.Proofs.Control.Chains
import Zephirize.Proofs.Control.Guards
import Zephirize.Proofs.Lowering.Destructuring
import Zephirize.Proofs.Tree.Preorder
import Zephirize.Proofs.Typing.Unions
import Zephirize.Proofs.Lowering.Origins
import Zephirize.Proofs.Lowering.Deferral
import Zephirize.Proofs.Lowering.Operators
import Zephirize.Proofs.Lowering.Readback
import Zephirize.Proofs.Lowering.Unambiguous
import Zephirize.Proofs.Typing.Parts
import Zephirize.Proofs.Typing.Inheritance
import Zephirize.Proofs.Program.Interfaces
import Zephirize.Proofs.DocBlock.RoundTrip
import Zephirize.Proofs.DocBlock.Slices
import Zephirize.Proofs.Lowering.Apart
import Zephirize.Proofs.Lowering.References
import Zephirize.Proofs.Typing.Annotations
import Zephirize.Proofs.Lowering.Frames
import Zephirize.Proofs.Lowering.Search
import Zephirize.Proofs.Text.Brackets
import Zephirize.Proofs.Code.Brackets
import Zephirize.Proofs.Lowering.Spelling
import Zephirize.Proofs.Lowering.Brackets
import Zephirize.Proofs.Tree.Schema
import Zephirize.Proofs.Tree.Conformity
import Zephirize.Proofs.Tree.Layouts
import Zephirize.Proofs.Text.Literals
import Zephirize.Proofs.Files.Order
import Zephirize.Proofs.Files.Trees
import Zephirize.Proofs.Project.Discovery
import Zephirize.Proofs.Lowering.Writing
import Zephirize.Proofs.Code.Reading
import Zephirize.Proofs.Control.Printed
