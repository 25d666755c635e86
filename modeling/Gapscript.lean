import Gapscript.Main
import Gapscript.CommandLine.Demo
import Gapscript.Proofs.Expr.Precedence
import Gapscript.Proofs.Reading.Literal
import Gapscript.Proofs.Reading.Advance
import Gapscript.Proofs.Reading.Expression
import Gapscript.Proofs.Reading.Statement
import Gapscript.Proofs.Run.Contract
import Gapscript.Proofs.Run.Upheld
import Gapscript.Proofs.Run.Frames
import Gapscript.Proofs.Session.Reachable
import Gapscript.Proofs.Session.Stack
import Gapscript.Proofs.Session.Termination
import Gapscript.Proofs.Session.Backtracking
import Gapscript.Proofs.Expr.Typeset
import Gapscript.Proofs.Expr.RoundTrip
import Gapscript.Proofs.Reading.Source
import Gapscript.Proofs.Run.Positions
import Gapscript.Proofs.Run.Scopes
import Gapscript.Proofs.Run.Forgetting
import Gapscript.Proofs.Run.Stranger
import Gapscript.Proofs.Run.Following
import Gapscript.Proofs.Run.Unrelated
import Gapscript.Proofs.Session.Unrelated
import Gapscript.Proofs.Run.Course
import Gapscript.Proofs.Run.Tracked
import Gapscript.Proofs.Run.Confined
import Gapscript.Proofs.Run.Lines
import Gapscript.Proofs.Session.OwnLine
import Gapscript.Proofs.Session.Expiry
import Gapscript.Proofs.Reading.Closing
import Gapscript.Proofs.Session.BodyEnds
import Gapscript.Proofs.Session.Located
import Gapscript.Proofs.Reading.Notes
import Gapscript.Proofs.Reading.Plain
import Gapscript.Proofs.Run.Journey
import Gapscript.Proofs.Run.Travel
import Gapscript.Proofs.Run.Bindings
import Gapscript.Proofs.Run.Watches
import Gapscript.Proofs.Run.Shadowing
import Gapscript.Proofs.Session.Journeys
import Gapscript.Proofs.Session.Mutability
import Gapscript.Proofs.Session.Watches
import Gapscript.Proofs.Session.Typed
import Gapscript.Proofs.Value.Equality
import Gapscript.Proofs.Reading.Dependencies
import Gapscript.Proofs.Run.Changes
import Gapscript.Proofs.Session.Changes
import Gapscript.Proofs.Session.Dependencies
import Gapscript.Proofs.Value.Held
import Gapscript.Proofs.Reading.Shift
import Gapscript.Proofs.Reading.Shifted
import Gapscript.Proofs.Value.Shift
import Gapscript.Proofs.Run.Beside
import Gapscript.Proofs.Run.Abreast
import Gapscript.Proofs.Run.Lockstep
import Gapscript.Proofs.Session.Depth
import Gapscript.Proofs.Session.Lowered
import Gapscript.Proofs.Text.Lines
import Gapscript.Proofs.Session.Repl
import Gapscript.Proofs.Lexical.Block
import Gapscript.Proofs.Run.Discreet
import Gapscript.Proofs.Run.Passage
import Gapscript.Proofs.Session.Diagnostics
import Gapscript.Proofs.Reading.Place
import Gapscript.Proofs.Reading.Placed
import Gapscript.Proofs.Text.Places
import Gapscript.Proofs.Run.Stock
import Gapscript.Proofs.Binding.Window
import Gapscript.Proofs.Lexical.Nested
import Gapscript.Proofs.Run.Turns
import Gapscript.Proofs.Run.Hoisting
import Gapscript.Proofs.Run.Declaring
import Gapscript.Proofs.Reading.Scan
import Gapscript.Proofs.Reading.Legible
import Gapscript.Proofs.Reading.Heading
import Gapscript.Proofs.Reading.Scanned
import Gapscript.Proofs.Run.Direct
import Gapscript.Proofs.Expr.Prefix
import Gapscript.Proofs.Number.Numeral
import Gapscript.Proofs.Number.Spelling
import Gapscript.Proofs.Number.Finite
import Gapscript.Proofs.Text.Trim
import Gapscript.Proofs.Binding.LifeTime
import Gapscript.Proofs.Lexical.Comment
import Gapscript.Proofs.Lexical.Edge
import Gapscript.Proofs.Reading.Budget
import Gapscript.Proofs.Lexical.Cut
import Gapscript.Proofs.Reading.Tally
import Gapscript.Proofs.Reading.Settle
import Gapscript.Proofs.Reading.Mirrored
import Gapscript.Proofs.Expr.Throughout
import Gapscript.Proofs.Reading.WellFormed
import Gapscript.Proofs.Run.Checked
import Gapscript.Proofs.Lexical.Quotation
import Gapscript.Proofs.Run.Atomic
import Gapscript.Proofs.Lexical.Spaced
import Gapscript.Proofs.Reading.Spaced
import Gapscript.Proofs.Value.Comparison
import Gapscript.Proofs.Value.Property
import Gapscript.Proofs.Value.Unfolding
import Gapscript.Proofs.Number.Parts
import Gapscript.Proofs.Number.Rounding
import Gapscript.Proofs.Number.Shortest
import Gapscript.Proofs.Value.Key
import Gapscript.Proofs.Scope.Callable
import Gapscript.Proofs.Scope.Names
import Gapscript.Proofs.Session.Completion
import Gapscript.Proofs.Report.Context
import Gapscript.Proofs.Session.History
import Gapscript.Proofs.Lexical.Gap
import Gapscript.Proofs.Expr.Runs
import Gapscript.Proofs.Lexical.Keyword
import Gapscript.Proofs.Reading.Guard
import Gapscript.Proofs.Run.Task
import Gapscript.Proofs.Run.Breaking
import Gapscript.Proofs.Run.Blame
import Gapscript.Proofs.Run.Blamed
import Gapscript.Proofs.Session.Places
