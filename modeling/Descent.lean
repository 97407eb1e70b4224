import Descent.Main
import Descent.Results
import Descent.Session
import Descent.Markup.Data
import Descent.Proofs.Consumed
import Descent.Proofs.Decides
import Descent.Proofs.Gathered
import Descent.Proofs.Lexical
import Descent.Proofs.Markup.Denotes
import Descent.Proofs.Markup.Tags
import Descent.Proofs.Markup.Accepts
import Descent.Proofs.Markup.Rendering
import Descent.Proofs.Within
import Descent.Proofs.Building
import Descent.Proofs.Over
import Descent.Proofs.Faithful
import Descent.Proofs.Contract
import Descent.Proofs.Alike
import Descent.Proofs.Knot
import Descent.Proofs.Kept
import Descent.Proofs.Tied
import Descent.Proofs.Knots
import Descent.Proofs.Markup.Documents
import Descent.Proofs.Recorded
import Descent.Proofs.Transparent
import Descent.Proofs.Untraced
import Descent.Proofs.Plain
import Descent.Proofs.Unmarked
import Descent.Proofs.Steady
import Descent.Proofs.Scoped
import Descent.Proofs.Held
import Descent.Proofs.Kinds
import Descent.Proofs.Atomic
import Descent.Proofs.Steps
import Descent.Proofs.Answers
import Descent.Proofs.WriteOnce
import Descent.Proofs.OpenScopes
import Descent.Proofs.Calls
import Descent.Proofs.GivenUp
import Descent.Proofs.Owners
import Descent.Proofs.Written
import Descent.Proofs.Covered
import Descent.Proofs.Lifetimes
import Descent.Proofs.Courses
import Descent.Proofs.Refuses
import Descent.Proofs.Markup.Refused
import Descent.Proofs.Silent
import Descent.Proofs.Markup.Mirrored
import Descent.Proofs.Unplaced
import Descent.Proofs.Pairs
import Descent.Proofs.Positions
import Descent.Proofs.Attempts
import Descent.Proofs.Places
import Descent.Proofs.Markup.Depth
import Descent.Proofs.Markup.Sources
import Descent.Proofs.Visits
import Descent.Proofs.Counted
import Descent.Proofs.Progress
import Descent.Proofs.Markup.Greedy
import Descent.Proofs.Parts
import Descent.Proofs.Shown
import Descent.Proofs.Markup.Represents
import Descent.Proofs.Runs
import Descent.Proofs.Quoted
import Descent.Proofs.Markup.Outlined
import Descent.Proofs.Markup.Reported
import Descent.Proofs.Delimited
import Descent.Proofs.Partition
import Descent.Proofs.Messages
import Descent.Proofs.Spans
