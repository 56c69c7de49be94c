import StructWasm.Wasm.Instr

/-!
# Encoding of code

The bytes of code are a sequence of pieces: bytes that are known at once, and
numbers that have to be looked up. If a number is not to be had, encoding stops
there, and the bytes before it have been written.
-/

namespace StructWasm.Wasm

/-- A piece of encoded code. -/
inductive Piece (refs : Refs) where
  | known (bytes : Bytes)
  | localIndex (name : refs.localVar)
  | globalIndex (name : refs.globalVar)
  | functionIndex (name : refs.function)
  | offset (offset : Offset refs.base)
  | offsetConst (offset : Offset refs.base)

def elseMark : UInt8 := 0x05

def endMark : UInt8 := 0x0B

def loadOpcode : ValType → UInt8
  | .i32 => 0x28
  | .i64 => 0x29
  | .f32 => 0x2A
  | .f64 => 0x2B

def storeOpcode : ValType → UInt8
  | .i32 => 0x36
  | .i64 => 0x37
  | .f32 => 0x38
  | .f64 => 0x39

def MemArg.pieces {refs : Refs} (opcode : UInt8) (arg : MemArg refs.base) :
    List (Piece refs) :=
  [.known (opcode :: Leb128.encodeUnsigned arg.alignExponent), .offset arg.offset]

namespace Instr

mutual

/-- Pieces of an instruction. The second part of a choice is left out if it is
empty and the choice gives no value. -/
def pieces {refs : Refs} : Instr refs → List (Piece refs)
  | .block type body => .known [0x02, type.byte] :: (bodyPieces body ++ [.known [endMark]])
  | .loop type body => .known [0x03, type.byte] :: (bodyPieces body ++ [.known [endMark]])
  | .ifElse type thenBody elseBody =>
    .known [0x04, type.byte] :: (bodyPieces thenBody ++
      (if !elseBody.isEmpty || type != .empty then
        .known [elseMark] :: bodyPieces elseBody
      else
        []) ++
      [.known [endMark]])
  | .branch depth => [.known (0x0C :: Leb128.encodeUnsigned depth)]
  | .branchIf depth => [.known (0x0D :: Leb128.encodeUnsigned depth)]
  | .leave => [.known [0x0F]]
  | .unreachable => [.known [0x00]]
  | .nop => [.known [0x01]]
  | .drop => [.known [0x1A]]
  | .select => [.known [0x1B]]
  | .numeric op => [.known [op.opcode]]
  | .load type arg => arg.pieces (loadOpcode type)
  | .store type arg => arg.pieces (storeOpcode type)
  | .localGet name => [.known [0x20], .localIndex name]
  | .localSet name => [.known [0x21], .localIndex name]
  | .localTee name => [.known [0x22], .localIndex name]
  | .globalGet name => [.known [0x23], .globalIndex name]
  | .globalSet name => [.known [0x24], .globalIndex name]
  | .const value => [.known value.encode]
  | .offsetConst offset => [.offsetConst offset]
  | .call name => [.known [0x10], .functionIndex name]
termination_by structural instr => instr

def bodyPieces {refs : Refs} : List (Instr refs) → List (Piece refs)
  | [] => []
  | instr :: rest => pieces instr ++ bodyPieces rest
termination_by structural body => body

end

end Instr

/-- How the numbers in code are looked up. -/
structure Resolver (refs : Refs) where
  localIndex : refs.localVar → Except Fault Nat
  globalIndex : refs.globalVar → Except Fault Nat
  functionIndex : refs.function → Except Fault Nat
  base : refs.base → Except Fault Nat

def encodeOffsetConst (value : Nat) : Except Fault Bytes :=
  if value < 0x80000000 then
    .ok (0x41 :: Leb128.encodeSigned value)
  else
    .error (.limit (.constant value))

def Piece.encode {refs : Refs} (resolver : Resolver refs) :
    Piece refs → Except Fault Bytes
  | .known bytes => .ok bytes
  | .localIndex name => do return Leb128.encodeUnsigned (← resolver.localIndex name)
  | .globalIndex name => do return Leb128.encodeUnsigned (← resolver.globalIndex name)
  | .functionIndex name => do return Leb128.encodeUnsigned (← resolver.functionIndex name)
  | .offset distance => do return Leb128.encodeUnsigned (← distance.value resolver.base)
  | .offsetConst distance => do encodeOffsetConst (← distance.value resolver.base)

/-- Encoding that was stopped. -/
structure Interrupted where
  written : Bytes
  cause : Fault

def encodePieces {refs : Refs} (resolver : Resolver refs) :
    List (Piece refs) → Except Interrupted Bytes
  | [] => .ok []
  | piece :: rest =>
    match piece.encode resolver with
    | .error cause => .error { written := [], cause }
    | .ok bytes =>
      match encodePieces resolver rest with
      | .ok more => .ok (bytes ++ more)
      | .error stop => .error { stop with written := bytes ++ stop.written }

def encodeCode {refs : Refs} (resolver : Resolver refs) (code : List (Instr refs)) :
    Except Interrupted Bytes :=
  encodePieces resolver (Instr.bodyPieces code)

/-- What a function does. -/
structure FunctionBody (refs : Refs) where
  locals : List (Nat × ValType)
  code : List (Instr refs)

def encodeLocals (locals : List (Nat × ValType)) : Bytes :=
  Leb128.encodeUnsigned locals.length ++
    locals.flatMap fun (count, type) => Leb128.encodeUnsigned count ++ [type.byte]

def FunctionBody.encode {refs : Refs} (resolver : Resolver refs)
    (body : FunctionBody refs) : Except Fault Bytes := do
  Limit.check "local group count" body.locals.length
  match encodeCode resolver body.code with
  | .ok code => return encodeLocals body.locals ++ code ++ [endMark]
  | .error stop => .error stop.cause

end StructWasm.Wasm
