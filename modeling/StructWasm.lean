import StructWasm.SourceText
import StructWasm.Proofs.Compile.StackPointer
import StructWasm.Proofs.Frame.Failures
import StructWasm.Proofs.Compile.Mapped
import StructWasm.Proofs.Compile.Order
import StructWasm.Proofs.Compile.Policy
import StructWasm.Proofs.Frame.BestFit
import StructWasm.Proofs.Frame.Granted
import StructWasm.Proofs.Frame.Partition
import StructWasm.Proofs.Literal
import StructWasm.Proofs.Lowering.LoopMoves
import StructWasm.Proofs.Wasm.Indices
import StructWasm.Proofs.Wasm.Signatures
import StructWasm.Proofs.Layout.Flattened
import StructWasm.Proofs.Layout.Order
import StructWasm.Proofs.Layout.Recursion
import StructWasm.Proofs.LocalPool.History
