import LetStack.Table
import LetStack.Item
import LetStack.Text.Blank
import LetStack.Text.Word
import LetStack.Text.Utf8
import LetStack.Text.Quoted
import LetStack.Decimal.Printing
import LetStack.Decimal.Reading
import LetStack.Expr
import LetStack.Source.Parse
import LetStack.Analysis.Check
import LetStack.Code.Compile
import LetStack.Machine.Run
import LetStack.Schema.Model
import LetStack.Main
import LetStack.Proofs.Text.RoundTrip
import LetStack.Proofs.Text.Lines
import LetStack.Proofs.Code.Decompiling
import LetStack.Proofs.Machine.Arithmetic
import LetStack.Proofs.Machine.Pointers
import LetStack.Proofs.Machine.Steps
import LetStack.Proofs.Machine.Calls
import LetStack.Proofs.Machine.Names
import LetStack.Proofs.Machine.Merging
import LetStack.Proofs.Machine.Placement
import LetStack.Proofs.Machine.Soundness
import LetStack.Proofs.Direct.Evaluate
import LetStack.Proofs.Direct.Represents
import LetStack.Proofs.Tree
import LetStack.Proofs.Direct.Simulation
import LetStack.Proofs.Direct.Agreement
import LetStack.Proofs.Machine.Preservation
import LetStack.Proofs.Machine.Points
import LetStack.Proofs.Machine.Faults
import LetStack.Proofs.Scoping.Accepted
import LetStack.Proofs.Scoping.Sessions
import LetStack.Proofs.Scoping.Lookups
import LetStack.Proofs.Scoping.Locals
import LetStack.Proofs.Scoping.Carrying
import LetStack.Proofs.Scoping.Constants
import LetStack.Proofs.Scoping.Declared
import LetStack.Proofs.Machine.Returns
import LetStack.Proofs.Machine.Depth
import LetStack.Proofs.Operands.Heights
import LetStack.Proofs.Operands.Kept
import LetStack.Proofs.Arity.Counted
import LetStack.Proofs.Arity.OutOfStep
import LetStack.Proofs.Machine.Contents
import LetStack.Proofs.Arity.Tracked
import LetStack.Proofs.Arity.Calls
import LetStack.Proofs.Machine.Growth
import LetStack.Proofs.Operands.Framing
import LetStack.Proofs.Machine.Literals
import LetStack.Proofs.Machine.Texts
import LetStack.Proofs.Machine.Stopping
import LetStack.Proofs.Machine.Arguments
import LetStack.Proofs.Machine.Dependence
import LetStack.Proofs.Schema.Reading
import LetStack.Proofs.Schema.RoundTrip
import LetStack.Proofs.Schema.Conforming
import LetStack.Proofs.Session.HandedOn
import LetStack.Proofs.Session.Handings
import LetStack.Proofs.Session.Integers
import LetStack.Proofs.Session.Results
import LetStack.Proofs.Session.Splitting
import LetStack.Proofs.Session.Listing
import LetStack.Proofs.Unrelated.Mentions
import LetStack.Proofs.Unrelated.Analysis
import LetStack.Proofs.Unrelated.Alike
import LetStack.Proofs.Unrelated.Steps
import LetStack.Proofs.Source.Writing
import LetStack.Proofs.Source.Lexing
import LetStack.Proofs.Source.Scanning
import LetStack.Proofs.Source.Joining
import LetStack.Proofs.Source.Reading
import LetStack.Proofs.Source.Parsing
import LetStack.Proofs.Source.Accounting
import LetStack.Proofs.Source.Printing
import LetStack.Proofs.Source.Acceptance
import LetStack.Proofs.Unrelated.Sessions
import LetStack.Proofs.Unrelated.Insertion
import LetStack.Proofs.Source.Headers
import LetStack.Proofs.Source.Semicolons
import LetStack.Proofs.Source.Assignments
import LetStack.Proofs.Session.Rejections
import LetStack.Proofs.Console.Replies
import LetStack.Proofs.Console.Conversation
import LetStack.Proofs.Analysis.Readings
import LetStack.Proofs.Analysis.Ordered
import LetStack.Proofs.Analysis.Lasting
import LetStack.Proofs.Analysis.Diagnostics
import LetStack.Proofs.Termination.Trails
import LetStack.Proofs.Termination.Ranks
import LetStack.Proofs.Termination.Endings
