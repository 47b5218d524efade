import SpanForest.Main
import SpanForest.Tree.Payload
import SpanForest.Proofs.Tree.Ancestors
import SpanForest.Proofs.Tree.Reconstructed
import SpanForest.Proofs.Trace.Conserved
import SpanForest.Proofs.Trace.Placed
import SpanForest.Proofs.Trace.KeptIds
import SpanForest.Proofs.Trace.MergedFirst
import SpanForest.Proofs.Trace.Processed
import SpanForest.Proofs.Trace.WholeLegs
import SpanForest.Proofs.Trace.FirstParts
import SpanForest.Proofs.Span.Reformatted
import SpanForest.Proofs.Span.Isolated
import SpanForest.Proofs.Span.Normal
import SpanForest.Proofs.Command.Reformatted
import SpanForest.Proofs.Command.AllOrNothing
import SpanForest.Proofs.Span.Bracketed
import SpanForest.Proofs.Tree.Failing
import SpanForest.Proofs.Tree.Reordered
import SpanForest.Proofs.Tree.Levels
import SpanForest.Proofs.Trace.Interleaved
import SpanForest.Proofs.Trace.OneLine
import SpanForest.Proofs.Text.Encoded
import SpanForest.Proofs.Trace.Accounted
import SpanForest.Proofs.Trace.Announced
import SpanForest.Proofs.Span.HexId
import SpanForest.Proofs.Trace.Partitioned
import SpanForest.Proofs.Tree.Atomic
