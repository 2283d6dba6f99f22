import Unparse.Arena.Basic
import Unparse.Arena.Key
import Unparse.Code.Basic
import Unparse.Code.Resolve
import Unparse.Code.Unfold
import Unparse.Decimal.Binary
import Unparse.Decimal.Shortest
import Unparse.Layout.Doc
import Unparse.Layout.Render
import Unparse.Print.Class
import Unparse.Print.Code
import Unparse.Print.Chain
import Unparse.Print.Error
import Unparse.Print.Expr
import Unparse.Print.Header
import Unparse.Print.Render
import Unparse.Print.Scope
import Unparse.Print.Style
import Unparse.Program.Body
import Unparse.Program.Class
import Unparse.Program.Construction
import Unparse.Program.Expr
import Unparse.Program.Literal
import Unparse.Program.Operator
import Unparse.Program.Stmt
import Unparse.Proofs.Reading.Chunk
import Unparse.Proofs.Reading.Grammar
import Unparse.Proofs.Reading.Line
import Unparse.Proofs.Reading.Literal
import Unparse.Proofs.Reading.Token
import Unparse.Target.Binding
import Unparse.Target.Lexicon
import Unparse.Target.Precedence
import Unparse.Target.TypeName
import Unparse.Text.Blank
import Unparse.Text.CharWidth
import Unparse.Text.Emoji
import Unparse.Text.Escape
import Unparse.Text.Ligature
import Unparse.Text.Width
import Unparse.Proofs.Reading.Readable
import Unparse.Proofs.Reading.Spelling
import Unparse.Proofs.Reading.Trees
import Unparse.Proofs.Reading.Operand
import Unparse.Proofs.Reading.Members
import Unparse.Proofs.Reading.Operators
import Unparse.Proofs.Reading.Grouping
import Unparse.Proofs.Walk.Meets
import Unparse.Proofs.Walk.Path
import Unparse.Proofs.Reading.Regrouping
import Unparse.Proofs.Reading.Printed
import Unparse.Proofs.Walk.Consistent
import Unparse.Proofs.Walk.Visits
import Unparse.Proofs.Walk.Resolve
import Unparse.Proofs.Walk.Links
import Unparse.Proofs.Walk.Walks
import Unparse.Proofs.Walk.Unfold
import Unparse.Proofs.Walk.Declarations
import Unparse.Proofs.Walk.Depth
import Unparse.Proofs.Walk.Trees
import Unparse.Proofs.Branching.Outline
import Unparse.Proofs.Branching.Code
import Unparse.Proofs.Branching.Else
import Unparse.Proofs.Layout.Leaves
import Unparse.Proofs.Listing.Parts
import Unparse.Proofs.Walk.Related
import Unparse.Proofs.Walk.Ensures
import Unparse.Proofs.Listing.Order
import Unparse.Proofs.Failure.Results
import Unparse.Proofs.Failure.Runs
import Unparse.Proofs.Failure.Recorded
import Unparse.Proofs.Failure.Traversal
import Unparse.Proofs.Failure.Declarations
import Unparse.Proofs.Failure.Classes
import Unparse.Proofs.Failure.Isolation
import Unparse.Proofs.Failure.Records
import Unparse.Proofs.Layout.Alike
import Unparse.Proofs.Layout.Due
import Unparse.Proofs.Layout.Stretches
import Unparse.Proofs.Renaming.Documents
import Unparse.Proofs.Renaming.Bodies
import Unparse.Proofs.Renaming.Mirror
import Unparse.Proofs.Renaming.Traversal
import Unparse.Proofs.Renaming.Chains
import Unparse.Proofs.Renaming.Declarations
import Unparse.Proofs.Renaming.Rendering
import Unparse.Proofs.Widths.Documents
import Unparse.Proofs.Widths.Rendering
import Unparse.Proofs.Names.Tokens
import Unparse.Proofs.Names.Written
import Unparse.Proofs.Names.Regions
import Unparse.Proofs.Names.First
import Unparse.Proofs.Names.Scopes
import Unparse.Proofs.Portable.Code
import Unparse.Proofs.Portable.Classes
import Unparse.Proofs.Meaning.Negation
import Unparse.Proofs.Meaning.Execution
import Unparse.Proofs.Meaning.Rounds
import Unparse.Proofs.Meaning.Bounds
import Unparse.Proofs.Meaning.WhileForm
import Unparse.Proofs.Meaning.CutShort
import Unparse.Proofs.Meaning.Loops
import Unparse.Proofs.Quoted.Lexer
import Unparse.Proofs.Quoted.Spelling
import Unparse.Proofs.Quoted.Constants
import Unparse.Proofs.Layout.Laid
import Unparse.Proofs.Reading.Laid
import Unparse.Proofs.Constants.Value
import Unparse.Proofs.Constants.Chain
import Unparse.Proofs.Constants.Spelled
import Unparse.Proofs.Constants.Printed
import Unparse.Proofs.Walk.Faults
import Unparse.Proofs.Meaning.Unordered
import Unparse.Proofs.Listing.Lines
import Unparse.Proofs.Meaning.Compound
import Unparse.Proofs.Walk.Settled
import Unparse.Proofs.Reading.Chained
import Unparse.Proofs.Reading.Restated
import Unparse.Proofs.Comments.Lines
import Unparse.Proofs.Comments.Rendering
import Unparse.Proofs.Arrays.Written
import Unparse.Proofs.Arrays.Types
import Unparse.Proofs.Arrays.Evaluation
import Unparse.Proofs.Walk.Pairs
import Unparse.Proofs.Names.Declared
import Unparse.Proofs.Names.Hoisted
import Unparse.Proofs.Names.Clashes
import Unparse.Proofs.Arrays.Spelling
import Unparse.Proofs.Meaning.Normal
import Unparse.Proofs.Headers.Modifiers
import Unparse.Proofs.Widths.OneLine
import Unparse.Proofs.Chains.Linked
import Unparse.Proofs.Keys.Calls
import Unparse.Proofs.Layout.Indents
import Unparse.Proofs.Layout.Outward
import Unparse.Proofs.Headers.Breaks
import Unparse.Proofs.Headers.Created
import Unparse.Proofs.Headers.Nested
import Unparse.Proofs.Layout.Lines
import Unparse.Proofs.Nesting.Reading
import Unparse.Proofs.Nesting.Combinators
import Unparse.Proofs.Nesting.Code
import Unparse.Proofs.Nesting.Bodies
import Unparse.Proofs.Walk.Negated
import Unparse.Proofs.Decimals.Written
import Unparse.Proofs.Decimals.Nearest
import Unparse.Proofs.Decimals.Patterns
import Unparse.Proofs.Decimals.Literals
