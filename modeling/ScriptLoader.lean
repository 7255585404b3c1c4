import ScriptLoader.Main
import ScriptLoader.Session.Rehearsal
import ScriptLoader.Session.Scripted
import ScriptLoader.Session.Searching
import ScriptLoader.Proofs.Runs
import ScriptLoader.Proofs.Steps
import ScriptLoader.Proofs.Restoration
import ScriptLoader.Proofs.Spelling
import ScriptLoader.Proofs.Records
import ScriptLoader.Proofs.Steady
import ScriptLoader.Proofs.Termination
import ScriptLoader.Proofs.Grammar
import ScriptLoader.Proofs.Numerals
import ScriptLoader.Proofs.Progress
import ScriptLoader.Proofs.Lexicon
import ScriptLoader.Proofs.Acceptance
import ScriptLoader.Proofs.Injection
import ScriptLoader.Proofs.Faults
import ScriptLoader.Proofs.Attribution
import ScriptLoader.Proofs.DepthFirst
import ScriptLoader.Proofs.Traversal
import ScriptLoader.Proofs.Skips
import ScriptLoader.Proofs.Definitions
import ScriptLoader.Proofs.Relocation
import ScriptLoader.Proofs.Referent
import ScriptLoader.Proofs.Keys
import ScriptLoader.Proofs.Boundary
import ScriptLoader.Proofs.CommandLines
import ScriptLoader.Proofs.Repetition
import ScriptLoader.Proofs.Exits
import ScriptLoader.Proofs.Hits
import ScriptLoader.Proofs.Wrappers
import ScriptLoader.Proofs.Concatenation
import ScriptLoader.Proofs.Rendering
import ScriptLoader.Proofs.RoundTrip
import ScriptLoader.Proofs.Spacing
import ScriptLoader.Proofs.Obstacles
import ScriptLoader.Proofs.Queries
import ScriptLoader.Proofs.Strings
import ScriptLoader.Proofs.Decoding
import ScriptLoader.Proofs.Refusals
import ScriptLoader.Proofs.Evaluation
import ScriptLoader.Proofs.Failures
import ScriptLoader.Proofs.Sums
import ScriptLoader.Proofs.Bindings
import ScriptLoader.Proofs.Placement
import ScriptLoader.Proofs.Expectation
import ScriptLoader.Proofs.Histories
import ScriptLoader.Proofs.Agreement
