import StructWasm.Assembler
import StructWasm.Proofs.Wasm.Decoding
import StructWasm.Proofs.Wasm.Module
import StructWasm.Proofs.Wasm.Registration

/-!
# Indices of what is registered

A reference is given out before its index exists, and functions may be created before all
imports are known. When the binary is written, each reference stands for the place of its
call among the calls of its kind, after all imports for a function that has a body.
-/

namespace StructWasm.Wasm

open Registration List Wasm.Module Registered Assembler

/-- The signature of the function with an index. -/
def Contents.signature? (contents : Contents) (index : Nat) : Option FuncType :=
  (contents.imports.map Import.typeIndex ++ contents.functions)[index]?.bind fun typeIndex =>
    contents.types[typeIndex]?

variable (session : Assembler)

section

variable {body : Type} (embed : Bool) {after : List (Registration body)}

end

end StructWasm.Wasm
