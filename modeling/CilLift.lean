import CilLift.Expr.Same
import CilLift.Expr.Render
import CilLift.Lift
import CilLift.Listing
import CilLift.Proofs.Codec
import CilLift.Proofs.Tree
import CilLift.Proofs.Trace
import CilLift.Proofs.Step
import CilLift.Proofs.Parts
import CilLift.Proofs.Run
import CilLift.Proofs.CodeGeneration
import CilLift.Proofs.Meaning
import CilLift.Proofs.Order
import CilLift.Proofs.WellFormed
import CilLift.Proofs.View
import CilLift.Proofs.Typing
import CilLift.Proofs.Reading
import CilLift.Proofs.Rewriting
import CilLift.Proofs.Accessors
import CilLift.Proofs.EventCalls
import CilLift.Proofs.FieldReads
import CilLift.Proofs.ExplicitReceiver
import CilLift.Proofs.BoundReceiver
import CilLift.Proofs.Validity
import CilLift.Proofs.Refusal
import CilLift.Proofs.Resumption
import CilLift.Proofs.Leaves
import CilLift.Proofs.FixedPoint
import CilLift.Proofs.NormalForm
import CilLift.Proofs.EventOrder
import CilLift.Proofs.Assignment
import CilLift.Proofs.EventReplacement
import CilLift.Proofs.Substitution
import CilLift.Proofs.AfterRefusal
import CilLift.Proofs.Frame
import CilLift.Proofs.Offset
import CilLift.Proofs.Spelling
import CilLift.Proofs.Classification
import CilLift.Proofs.FaultOffset
import CilLift.Proofs.Words
import CilLift.Proofs.ListingText
import CilLift.Proofs.RenderText
import CilLift.Proofs.Sameness
import CilLift.Proofs.Announcement
import CilLift.Proofs.BoundedStack
