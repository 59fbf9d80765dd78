import MarkovAlgorithm.Word
import MarkovAlgorithm.Rule
import MarkovAlgorithm.Text.Quoted
import MarkovAlgorithm.Machine
import MarkovAlgorithm.History
import MarkovAlgorithm.Session
import MarkovAlgorithm.Run
import MarkovAlgorithm.Sample
import MarkovAlgorithm.Data
import MarkovAlgorithm.Workbench.Object
import MarkovAlgorithm.Workbench
import MarkovAlgorithm.CommandLine.Token
import MarkovAlgorithm.CommandLine.Command
import MarkovAlgorithm.CommandLine.FileTree
import MarkovAlgorithm.CommandLine.Execution
import MarkovAlgorithm.Main
import MarkovAlgorithm.Proofs.Word
import MarkovAlgorithm.Proofs.Rule.Text
import MarkovAlgorithm.Proofs.Text.Lines
import MarkovAlgorithm.Proofs.Text.LineEnds
import MarkovAlgorithm.Proofs.Text.Encoding
import MarkovAlgorithm.Proofs.Rule.Encoding
import MarkovAlgorithm.Proofs.History
import MarkovAlgorithm.Proofs.Machine.Trajectory
import MarkovAlgorithm.Proofs.Machine.Step
import MarkovAlgorithm.Proofs.Machine.Program
import MarkovAlgorithm.Proofs.Machine.Composition
import MarkovAlgorithm.Proofs.Session.Step
import MarkovAlgorithm.Proofs.Run.Stop
import MarkovAlgorithm.Proofs.Run.Trajectory
import MarkovAlgorithm.Proofs.Run.Repetition
import MarkovAlgorithm.Proofs.Run.Finish
import MarkovAlgorithm.Proofs.Run.NonGrowing
import MarkovAlgorithm.Proofs.Run.Limit
import MarkovAlgorithm.Proofs.Run.Growth
import MarkovAlgorithm.Proofs.Run.Resumption
import MarkovAlgorithm.Proofs.Run.Derivation
import MarkovAlgorithm.Proofs.Run.Translation
import MarkovAlgorithm.Proofs.Run.Renaming
import MarkovAlgorithm.Proofs.Run.Shadowing
import MarkovAlgorithm.Proofs.Sample.Reversal
import MarkovAlgorithm.Proofs.Sample.Tally
import MarkovAlgorithm.Proofs.Sample.Exchange
import MarkovAlgorithm.Proofs.Session.Invariant
import MarkovAlgorithm.Proofs.Session.Repetition
import MarkovAlgorithm.Proofs.Session.Course
import MarkovAlgorithm.Proofs.CommandLine.Animation
import MarkovAlgorithm.Proofs.CommandLine.Listing
import MarkovAlgorithm.Proofs.Session.Rejection
import MarkovAlgorithm.Proofs.Data.Form
import MarkovAlgorithm.Proofs.Workbench.StepByStep
