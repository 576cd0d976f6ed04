import Interpose.CommandLine.Program
import Interpose.Main
import Interpose.Proofs.Image.Codec
import Interpose.Proofs.Image.Parts
import Interpose.Proofs.Image.Delimited
import Interpose.Proofs.Image.References
import Interpose.Proofs.Image.RoundTrip
import Interpose.Proofs.Execution.Texts
import Interpose.Proofs.Execution.Scripts
import Interpose.Proofs.Execution.Operations
import Interpose.Proofs.Execution.Executes
import Interpose.Proofs.Execution.Relayout
import Interpose.Proofs.Execution.Continues
import Interpose.Proofs.Execution.Functions
import Interpose.Proofs.Execution.Lookups
import Interpose.Proofs.Execution.Straight
import Interpose.Proofs.Execution.Identities
import Interpose.Proofs.Interception.Intercepted
import Interpose.Proofs.Interception.Layout
import Interpose.Proofs.Interception.ExpansionRun
import Interpose.Proofs.Interception.Mirror
import Interpose.Proofs.Interception.Faithful
import Interpose.Proofs.Renaming.Values
import Interpose.Proofs.Execution.Calls
import Interpose.Proofs.Renaming.Operations
import Interpose.Proofs.Renaming.Run
import Interpose.Proofs.Interception.Batch
import Interpose.Proofs.Interception.OneByOne
import Interpose.Proofs.Interception.Tasks
import Interpose.Proofs.Interception.Again
import Interpose.Proofs.Interception.Storable
import Interpose.Proofs.Interception.PassThrough
import Interpose.Proofs.Interception.Transparent
import Interpose.Proofs.Interception.Woven
import Interpose.Proofs.Execution.Traces
import Interpose.Proofs.Execution.Limits
import Interpose.Proofs.Execution.Arrays
import Interpose.Proofs.Execution.Typed
import Interpose.Proofs.Execution.OpenFrames
import Interpose.Proofs.Execution.CallEffects
import Interpose.Proofs.Execution.InRange
import Interpose.Proofs.Json.Grammar
import Interpose.Proofs.Json.Derived
import Interpose.Proofs.Json.Numerals
import Interpose.Proofs.Json.Text
import Interpose.Proofs.Json.ModuleForm
import Interpose.Proofs.Image.Truncation
import Interpose.Proofs.Image.Limited
import Interpose.Proofs.Execution.Stretches
import Interpose.Proofs.Interception.CallSites
import Interpose.Proofs.Interception.Provided
import Interpose.Proofs.Interception.Dispatches
import Interpose.Proofs.Interception.Acceptance
import Interpose.Proofs.Module.Building
import Interpose.Proofs.Interception.Named
import Interpose.Proofs.Session.Answers
import Interpose.Proofs.Execution.ArgumentSlots
import Interpose.Proofs.Execution.Labels
import Interpose.Proofs.Interception.BranchTargets
import Interpose.Proofs.Interception.CalleeIdentity
import Interpose.Proofs.Text.Quoted
import Interpose.Proofs.Instruction.Listing
