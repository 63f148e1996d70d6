import SystemT.Ty.Matching
import SystemT.Main
import SystemT.Proofs.Term.Parallel
import SystemT.Proofs.Term.Sharing
import SystemT.Proofs.Term.Scope
import SystemT.Proofs.Ty.Display
import SystemT.Proofs.Ty.Composition
import SystemT.Proofs.Ty.Acyclic
import SystemT.Proofs.Ty.Canonical
import SystemT.Proofs.Ty.Matching
import SystemT.Proofs.Unification.MostGeneral
import SystemT.Proofs.Unification.Progress
import SystemT.Proofs.Typing
import SystemT.Proofs.Inference.Sound
import SystemT.Proofs.Inference.Checker
import SystemT.Proofs.Inference.Principal
import SystemT.Proofs.Inference.Check
import SystemT.Proofs.Inference.Indices
import SystemT.Proofs.Inference.Constants
import SystemT.Proofs.Inference.Instances
import SystemT.Proofs.Evaluation.Rules
import SystemT.Proofs.Evaluation.Agreement
import SystemT.Proofs.Evaluation.Places
import SystemT.Proofs.Evaluation.Preservation
import SystemT.Proofs.Evaluation.Termination
import SystemT.Proofs.Evaluation.Values
import SystemT.Proofs.Reader.Tokens
import SystemT.Proofs.Reader.Grammar
import SystemT.Proofs.Reader.RoundTrip
import SystemT.Proofs.Reader.Splitting
import SystemT.Proofs.Reader.Accepted
import SystemT.Proofs.Reader.Numerals
import SystemT.Proofs.Reader.Placement
import SystemT.Proofs.Reader.Forms
import SystemT.Proofs.Reader.Cost
import SystemT.Proofs.Reader.Replay
import SystemT.Proofs.Reader.Expressions
import SystemT.Proofs.Reader.Slices
import SystemT.Proofs.Reader.Spans
import SystemT.Proofs.Session.Sound
import SystemT.Proofs.Session.Scoping
import SystemT.Proofs.Session.Renaming
import SystemT.Proofs.Session.Recorded
import SystemT.Proofs.Session.Sources
import SystemT.Proofs.Session.Modes
import SystemT.Proofs.Session.Faultless
import SystemT.Proofs.Session.Expressions
import SystemT.Proofs.Chains
