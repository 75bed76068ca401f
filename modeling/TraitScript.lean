import TraitScript.Main
import TraitScript.Value.Inspect
import TraitScript.Proofs.Session.ControlFlow
import TraitScript.Proofs.Session.Scopes
import TraitScript.Proofs.Session.Superclass
import TraitScript.Proofs.Parse.Program
import TraitScript.Proofs.Parse.Termination
import TraitScript.Proofs.Session.Rejection
import TraitScript.Proofs.Session.Renaming
import TraitScript.Proofs.Session.Lines
import TraitScript.Proofs.Account.Judgement
import TraitScript.Proofs.Account.Run
import TraitScript.Proofs.Method.Declare
import TraitScript.Proofs.Account.Declare
import TraitScript.Proofs.Account.Session
import TraitScript.Proofs.Session.CurrentFrame
import TraitScript.Proofs.Method.Provenance
import TraitScript.Proofs.Account.Holds
import TraitScript.Proofs.Session.Lookup
import TraitScript.Proofs.Account.Receivers
import TraitScript.Proofs.Session.Receivers
import TraitScript.Proofs.Text.Utf8
import TraitScript.Proofs.Token.Lexeme
import TraitScript.Proofs.Token.Coverage
import TraitScript.Proofs.Token.Cursor
import TraitScript.Proofs.Token.Lines
import TraitScript.Proofs.Token.Rescan
import TraitScript.Proofs.Token.Insertion
import TraitScript.Proofs.Parse.Numbering
import TraitScript.Proofs.Scope.Part
import TraitScript.Proofs.Scope.Trace
import TraitScript.Proofs.Scope.Jumps
import TraitScript.Proofs.Scope.OwnInitializer
import TraitScript.Proofs.Session.Located
import TraitScript.Proofs.Session.Outcome
import TraitScript.Proofs.Scope.Unused
import TraitScript.Proofs.Session.TraitDeclaration
import TraitScript.Proofs.Session.Atomic
import TraitScript.Proofs.Parse.Recovery
import TraitScript.Proofs.Account.Newcomers
import TraitScript.Proofs.Session.Construction
import TraitScript.Proofs.Account.Growth
import TraitScript.Proofs.Eval.OwnCode
import TraitScript.Proofs.Eval.Iterations
import TraitScript.Proofs.Moved.Calls
import TraitScript.Proofs.Moved.Contained
import TraitScript.Proofs.Session.LoopFrames
import TraitScript.Proofs.Session.LineReading
import TraitScript.Proofs.Frame.Lookup
import TraitScript.Proofs.Session.InTurn
import TraitScript.Proofs.Number.Range
import TraitScript.Proofs.Tree.Unambiguous
