import ScriptMin.Source.Character
import ScriptMin.Source.Span
import ScriptMin.Source.Printable
import ScriptMin.Number.Binary64
import ScriptMin.Number.Shortest
import ScriptMin.Number.Numeral
import ScriptMin.Number.Integer
import ScriptMin.Literal.Numeric
import ScriptMin.Literal.Escape
import ScriptMin.Literal.Quoted
import ScriptMin.Operator
import ScriptMin.Token.Basic
import ScriptMin.Token.Lexer
import ScriptMin.SyntaxError
import ScriptMin.Assumption
import ScriptMin.Tree.Shape
import ScriptMin.Tree.Children
import ScriptMin.Tree.Node
import ScriptMin.Tree.Chain
import ScriptMin.Tree.Binding
import ScriptMin.Grammar.Frame
import ScriptMin.Grammar.Reader
import ScriptMin.Grammar.Rules
import ScriptMin.Grammar.Pattern
import ScriptMin.Grammar.Target
import ScriptMin.Grammar.Function
import ScriptMin.Grammar.Class
import ScriptMin.Grammar.Arrow
import ScriptMin.Grammar.Operand
import ScriptMin.Grammar.Expression
import ScriptMin.Grammar.Variables
import ScriptMin.Grammar.Loop
import ScriptMin.Grammar.Module
import ScriptMin.Grammar.Statement
import ScriptMin.Grammar.Program
import ScriptMin.Layout.Basic
import ScriptMin.Layout.Edge
import ScriptMin.Layout.OfNode
import ScriptMin.Layout.Checked
import ScriptMin.Rewrite.Basic
import ScriptMin.Rewrite.Effects
import ScriptMin.Rewrite.Folding
import ScriptMin.Rewrite.Reachability
import ScriptMin.Rewrite.Spelling
import ScriptMin.Rewrite.Blocks
import ScriptMin.Rewrite.Branches
import ScriptMin.Rewrite.Sequences
import ScriptMin.Rewrite.Passes
import ScriptMin.Rewrite.Checked
import ScriptMin.Rename.Supply
import ScriptMin.Rename.Scope
import ScriptMin.Rename.Environment
import ScriptMin.Rename.Walk
import ScriptMin.Minify
import ScriptMin.Config.Numeral
import ScriptMin.Config.Fault
import ScriptMin.Config.Reader
import ScriptMin.Config.Record
import ScriptMin.Config.Options
import ScriptMin.CommandLine.Arguments
import ScriptMin.CommandLine.Run
import ScriptMin.CommandLine.Directory
import ScriptMin.Main
import ScriptMin.Proofs.Tree.Induction
import ScriptMin.Proofs.Tree.Map
import ScriptMin.Proofs.Tree.Bodies
import ScriptMin.Proofs.Tree.Variables
import ScriptMin.Proofs.Tree.WellFormed
import ScriptMin.Proofs.Tree.Interface
import ScriptMin.Proofs.Grammar.Ensures
import ScriptMin.Proofs.Grammar.Pattern
import ScriptMin.Proofs.Grammar.Function
import ScriptMin.Proofs.Grammar.Target
import ScriptMin.Proofs.Grammar.Expression
import ScriptMin.Proofs.Grammar.Statement
import ScriptMin.Proofs.Grammar.Program
import ScriptMin.Proofs.Rename.Supply
import ScriptMin.Proofs.Rename.Table
import ScriptMin.Proofs.Rename.Place
import ScriptMin.Proofs.Rename.Reopen
import ScriptMin.Proofs.Rename.Reference
import ScriptMin.Proofs.Rename.Hoisted
import ScriptMin.Proofs.Rename.WellFormed
import ScriptMin.Proofs.Rename.FirstFree
import ScriptMin.Proofs.Rename.Generator
import ScriptMin.Proofs.Rename.Settled
import ScriptMin.Proofs.Rename.Roles
import ScriptMin.Proofs.Rename.Respelled
import ScriptMin.Proofs.Rename.Twice
import ScriptMin.Proofs.Rename.Exports
import ScriptMin.Proofs.Rename.Frame
import ScriptMin.Proofs.Layout.Checked
import ScriptMin.Proofs.Layout.Pen
import ScriptMin.Proofs.Layout.Shrinks
import ScriptMin.Proofs.Layout.Edge
import ScriptMin.Proofs.Layout.Tightens
import ScriptMin.Proofs.Layout.Parts
import ScriptMin.Proofs.Rewrite.Kept
import ScriptMin.Proofs.Rewrite.Rules
import ScriptMin.Proofs.Rewrite.MadeOf
import ScriptMin.Proofs.Rewrite.Variables
import ScriptMin.Proofs.Rewrite.VariablesInRows
import ScriptMin.Proofs.Rewrite.OpenIf
import ScriptMin.Proofs.Rewrite.Accesses
import ScriptMin.Proofs.Rewrite.WellFormed
import ScriptMin.Proofs.Rewrite.Interface
import ScriptMin.Proofs.Rewrite.Weight
import ScriptMin.Proofs.Rewrite.Unreached
import ScriptMin.Proofs.Rewrite.Fires
import ScriptMin.Proofs.Rewrite.Settles
import ScriptMin.Proofs.Rewrite.Checked
import ScriptMin.Proofs.Layout.Congruence
import ScriptMin.Proofs.Rewrite.ShorterRows
import ScriptMin.Proofs.Rewrite.ShorterStatements
import ScriptMin.Proofs.Rewrite.ShorterReturns
import ScriptMin.Proofs.Rewrite.Shorter
import ScriptMin.Proofs.Assumptions
import ScriptMin.Proofs.Behaviour.Outline
import ScriptMin.Proofs.Behaviour.Run
import ScriptMin.Proofs.Behaviour.Meaning
import ScriptMin.Proofs.Behaviour.Silent
import ScriptMin.Proofs.Behaviour.Effects
import ScriptMin.Proofs.Behaviour.Preserves
import ScriptMin.Proofs.Behaviour.Rows
import ScriptMin.Proofs.Behaviour.Statements
import ScriptMin.Proofs.Behaviour.Branches
import ScriptMin.Proofs.Behaviour.Preservation
import ScriptMin.Proofs.Token.LongestWord
import ScriptMin.Proofs.Token.Lexeme
import ScriptMin.Proofs.Token.Trivia
import ScriptMin.Proofs.Token.Tiling
import ScriptMin.Proofs.Setting.Basic
import ScriptMin.Proofs.Setting.Widens
import ScriptMin.Proofs.Setting.Frame
import ScriptMin.Proofs.Setting.Pattern
import ScriptMin.Proofs.Setting.Function
import ScriptMin.Proofs.Setting.Target
import ScriptMin.Proofs.Setting.Expression
import ScriptMin.Proofs.Setting.Loop
import ScriptMin.Proofs.Setting.Statement
import ScriptMin.Proofs.Setting.Rewrite
import ScriptMin.Proofs.Setting.DirectLabels
import ScriptMin.Proofs.Setting.Standing
import ScriptMin.Proofs.Reading.Runs
import ScriptMin.Proofs.Reading.Row
import ScriptMin.Proofs.Reading.Target
import ScriptMin.Proofs.Reading.Place
import ScriptMin.Proofs.Reading.Tokens
import ScriptMin.Proofs.Reading.Rules
import ScriptMin.Proofs.Reading.Pattern
import ScriptMin.Proofs.Reading.Function
import ScriptMin.Proofs.Reading.Class
import ScriptMin.Proofs.Reading.Operand
import ScriptMin.Proofs.Reading.Expression
import ScriptMin.Proofs.Reading.Loop
import ScriptMin.Proofs.Reading.Statement
import ScriptMin.Proofs.Reading.Program
import ScriptMin.Proofs.Strictness.ReadAs
import ScriptMin.Proofs.Strictness.Pattern
import ScriptMin.Proofs.Strictness.Function
import ScriptMin.Proofs.Strictness.Class
import ScriptMin.Proofs.Strictness.Target
import ScriptMin.Proofs.Strictness.Expression
import ScriptMin.Proofs.Strictness.Loop
import ScriptMin.Proofs.Strictness.Statement
import ScriptMin.Proofs.Strictness.Names
import ScriptMin.Proofs.Strictness.Functions
import ScriptMin.Proofs.Rename.Functions
import ScriptMin.Proofs.Literal.Quoted
import ScriptMin.Proofs.Literal.CodeUnits
import ScriptMin.Proofs.Number.Interval
import ScriptMin.Proofs.Number.Shortest
import ScriptMin.Proofs.Literal.Decimal
import ScriptMin.Proofs.Token.Numeral
import ScriptMin.Proofs.Token.Separators
import ScriptMin.Proofs.Number.Exact
import ScriptMin.Proofs.Literal.Numeral
import ScriptMin.Proofs.Elsewhere.Basic
import ScriptMin.Proofs.Elsewhere.Tree
import ScriptMin.Proofs.Elsewhere.Function
import ScriptMin.Proofs.Elsewhere.Expression
import ScriptMin.Proofs.Elsewhere.Statement
import ScriptMin.Proofs.Token.Word
import ScriptMin.Proofs.Elsewhere.Cover
import ScriptMin.Proofs.Elsewhere.LoneParameter
import ScriptMin.Proofs.Reading.Grants
import ScriptMin.Proofs.Reading.Unbuffered
import ScriptMin.Proofs.InPlace.Session
import ScriptMin.Proofs.InPlace.Function
import ScriptMin.Proofs.InPlace.Expression
import ScriptMin.Proofs.InPlace.Statement
import ScriptMin.Proofs.InPlace.Program
import ScriptMin.Proofs.Elsewhere.Answers
import ScriptMin.Proofs.Elsewhere.DeclaredPattern
import ScriptMin.Proofs.Elsewhere.PatternLiteral
import ScriptMin.Proofs.Elsewhere.AssignedPattern
