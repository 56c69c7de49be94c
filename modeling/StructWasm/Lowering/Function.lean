import StructWasm.Frame.Replay
import StructWasm.Lowering.Body
import StructWasm.Wasm.Encoding

/-!
# Lowering of functions

A function is lowered from its own declaration and the signatures of the others,
independently of their bodies. The result is a body with symbolic references, its
numbered locals and its frame; or a fault. In both cases it is known which
functions were asked for.
-/

namespace StructWasm.Lowering

/-- A function body that is ready to be encoded once functions have indices. -/
structure Body where
  locals : LocalPool
  frame : Frame.Allocator
  code : Code

def Body.trap : Body :=
  { locals := .new []
    frame := .new .lenient 1
    code := [.unreachable] }

/-- What came of lowering a function. -/
structure Outcome where
  body : Except Fault Body
  requests : List String

/-- What a function with a result gives back. The address for a structure comes as
the first parameter. -/
def resultPlan : Option Ty → ResultPlan
  | none => .nothing
  | some type =>
    if type.isStruct then
      .struct type { type := .i32, place := .param 0 }
    else
      .scalar type

/-- Bind parameters from a position on. A structure parameter is the address of a
complete value. -/
def bindParams (position : Nat) (span : Span) : List (String × Ty) → Emit Unit
  | [] => pure ()
  | (name, type) :: rest => do
      let place : LocalRef := { type := type.valType, place := .param position }
      if type.isStruct then
        let node ← newValue name type
        define node span
        declare name (.struct {
          type, address := { base := place, offset := .fixed 0 }, node, slot? := none })
      else
        declare name (.scalar type place)
      bindParams (position + 1) span rest

/-- Lower the parameters and the body of a function, then lay out its frame and
number its locals. -/
def lowerDeclaration (decl : FunctionDecl) (signature : Signature) : Emit Body := do
  let context ← read
  let names := decl.params.map fun param => param.name.name
  let first := if signature.result.any Ty.isStruct then 1 else 0
  bindParams first decl.span (names.zip signature.params)
  let (code, value) ← lowerBlock decl.body signature.result
  let resultCode ← lowerResult value decl.body.span
  let work ← get
  let (frame, outcome) := work.frame.resolve
  check (outcome.mapError Fault.frame)
  let (locals, _) ← check work.locals.finish
  return {
    locals := locals
    frame
    code := prologue context.framePointer ++ code ++ resultCode ++
      epilogue context.framePointer }

/-- Lower a function of a program with the given structures and signatures. -/
def lowerFunction (config : Config) (layouts : Layouts)
    (signatures : List (String × Option Signature)) (decl : FunctionDecl)
    (signature : Signature) : Outcome :=
  match (LocalPool.new signature.wasmType.params).allocate .i32 with
  | .error fault => { body := .error fault, requests := [] }
  | .ok (locals, framePointer) =>
    let context : Context :=
      { file := config.sourceName, layouts, signature? := (signatures.lookup ·), framePointer
        result := resultPlan signature.result }
    let work : Workspace :=
      { locals
        frame := .new config.freePolicy config.stackAlignment.toNat
        arena := .empty
        scopes := [[]]
        requests := [] }
    match (lowerDeclaration decl signature).run context |>.run work with
    | .ok body work => { body := .ok body, requests := work.requests }
    | .error fault work => { body := .error fault, requests := work.requests }

namespace Body

def frameNumber (body : Body) : FrameNumber → Deferred
  | .slot id => { label := "stack offset", value? := body.frame.offset? id }
  | .size => { label := "frame size", value? := body.frame.frameSize }

/-- How the numbers in a body are looked up, given the indices of functions and
globals. -/
def resolver (body : Body) (functionIndex : String → Except Fault Nat)
    (globalIndex : GlobalName → Nat) : Wasm.Resolver codeRefs :=
  { localIndex := fun place => (body.locals.index place).get.mapError Fault.deferred
    globalIndex := fun name => .ok (globalIndex name)
    functionIndex
    base := fun number => (body.frameNumber number).get.mapError Fault.deferred }

def encode (body : Body) (functionIndex : String → Except Fault Nat)
    (globalIndex : GlobalName → Nat) : Except Fault Bytes :=
  Wasm.FunctionBody.encode (body.resolver functionIndex globalIndex)
    { locals := body.locals.groups, code := body.code }

end Body
end StructWasm.Lowering
