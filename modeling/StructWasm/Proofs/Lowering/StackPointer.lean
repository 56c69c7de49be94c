import StructWasm.Proofs.Lowering.Accesses
import StructWasm.Proofs.Scalar.Function
import StructWasm.Proofs.Wasm.Invocation

/-!
# The stack pointer

A function takes its frame from the stack when it starts, and the frame pointer holds the
stack pointer from then on. Code between the prologue and the epilogue keeps both, and
whatever leaves the function gives the stack pointer its first value back. So no call
moves the stack pointer, as long as no imported function does.
-/

namespace StructWasm.Lowering

open Wasm List Option Prod Except Int32 Instr

variable {memory : Type} {scene : Scene codeRefs memory} {running next : Running memory}
variable {placing : Placing} {ending : Ending} {base top : Int32} {size : Nat} {code : Code}

/-! ## What code keeps -/

/-- The stack pointer among the globals. -/
def stackPointerOf (store : Store memory) : Option Constant :=
  store.globals[0]?

/-- The frame pointer and the stack pointer hold an address. -/
structure Steady (placing : Placing) (base : Int32) (running : Running memory) : Prop where
  framePointer : running.locals[placing.number placing.framePointer]? = some (.i32 base)
  stackPointer : stackPointerOf running.store = some (.i32 base)

/-- Code goes on or branches with both pointers as they were, or leaves the function with
the stack pointer at the end of the frame. A branch stays within some blocks. -/
def EndsWell (placing : Placing) (base top : Int32) (blocks : Nat) :
    Ending → Running memory → Prop
  | .proceeds, next => Steady placing base next
  | .branches depth, next => depth < blocks ∧ Steady placing base next
  | .leaves, next => stackPointerOf next.store = some (.i32 top)

/-- Code that ends well whenever it starts with both pointers at the frame. -/
def KeepsStack (scene : Scene codeRefs memory) (placing : Placing) (base top : Int32)
    (blocks : Nat) (code : Code) : Prop :=
  ∀ ⦃running next ending⦄, Steady placing base running →
    performCode scene code running = some (ending, next) →
    EndsWell placing base top blocks ending next

/-- Calls leave the stack pointer as it is. -/
def CallsKeep (invoke : Nat → List Constant → Store memory → Option
    (List Constant × Store memory)) :
    Prop :=
  ∀ ⦃index arguments store results after⦄, invoke index arguments store = some (results, after) →
    stackPointerOf after = stackPointerOf store

/-- A step that leaves the locals and the stack pointer alone. -/
structure Aside (running next : Running memory) : Prop where
  locals_eq : next.locals = running.locals
  stackPointer_eq : stackPointerOf next.store = stackPointerOf running.store

theorem Steady.aside (steady : Steady placing base running) (aside : Aside running next) :
    Steady placing base next :=
  ⟨aside.locals_eq ▸ steady.framePointer, aside.stackPointer_eq ▸ steady.stackPointer⟩

theorem Steady.withStack (steady : Steady placing base running) (stack : List Constant) :
    Steady placing base { running with stack } :=
  ⟨steady.framePointer, steady.stackPointer⟩

theorem Aside.of_stack (same : { running.toMachine with stack } = next.toMachine) :
    Aside running next where
  locals_eq := (congrArg Machine.locals same).symm
  stackPointer_eq := (congrArg (fun machine => machine.globals[0]?) same).symm

/-! ## Instructions -/

variable {instr : Instr codeRefs} {type : ValType}

theorem execute_of_perform (straight : instr.isStraight = true)
    (done : instr.perform scene running = some (ending, next)) :
    ending = .proceeds ∧ instr.execute scene.resolver running.toMachine = .ok next.toMachine := by
  rw [perform_of_isStraight straight] at done
  obtain ⟨machine, executed, done⟩ := Option.map_eq_some_iff.mp done
  obtain ⟨rfl, rfl⟩ := Prod.mk.inj done
  refine ⟨rfl, ?_⟩
  cases out : instr.execute scene.resolver running.toMachine with
  | error halt => simp [out, Except.toOption] at executed
  | ok found =>
    rw [out] at executed
    exact congrArg Except.ok (Option.some.inj executed)

theorem aside_callFunction (keeps : CallsKeep scene.invoke)
    (called : callFunction scene name running = some next) : Aside running next := by
  unfold callFunction at called
  obtain ⟨index, -, called⟩ := bind_eq_some_iff.mp called
  obtain ⟨type, -, called⟩ := bind_eq_some_iff.mp called
  obtain ⟨⟨results, store⟩, invoked, called⟩ := bind_eq_some_iff.mp called
  obtain rfl := some.inj called
  exact ⟨rfl, keeps invoked⟩

theorem aside_plain (keeps : CallsKeep scene.invoke) (plain : isPlain instr = true)
    (done : instr.perform scene running = some (ending, next)) :
    ending = .proceeds ∧ Aside running next := by
  cases instr with
  | unreachable => cases done
  | call name =>
    obtain ⟨after, called, done⟩ := bind_eq_some_iff.mp done
    obtain ⟨rfl, rfl⟩ := mk.inj (some.inj done)
    exact ⟨rfl, aside_callFunction keeps called⟩
  | numeric op =>
    obtain ⟨stack, -, done⟩ := bind_eq_some_iff.mp done
    obtain ⟨rfl, rfl⟩ := mk.inj (some.inj done)
    exact ⟨rfl, rfl, rfl⟩
  | drop =>
    obtain ⟨rfl, executed⟩ := execute_of_perform rfl done
    simp only [execute] at executed
    split at executed
    · injection executed with same
      exact ⟨rfl, .of_stack same⟩
    · cases executed
  | localGet name =>
    obtain ⟨rfl, executed⟩ := execute_of_perform rfl done
    obtain ⟨index, -, executed⟩ := bind_eq_ok.mp executed
    obtain ⟨value, -, executed⟩ := bind_eq_ok.mp executed
    exact ⟨rfl, .of_stack (pure_eq_ok.mp executed)⟩
  | const value =>
    obtain ⟨rfl, executed⟩ := execute_of_perform rfl done
    injection executed with same
    exact ⟨rfl, .of_stack same⟩
  | offsetConst offset =>
    obtain ⟨rfl, executed⟩ := execute_of_perform rfl done
    obtain ⟨value, -, executed⟩ := bind_eq_ok.mp executed
    exact ⟨rfl, .of_stack (pure_eq_ok.mp executed)⟩
  | _ => cases plain

theorem aside_load (done : perform scene (.load type arg) running = some (ending, next)) :
    ending = .proceeds ∧ Aside running next := by
  obtain ⟨⟨address, rest⟩, -, done⟩ := bind_eq_some_iff.mp done
  obtain ⟨value, -, done⟩ := bind_eq_some_iff.mp done
  obtain ⟨rfl, rfl⟩ := mk.inj (some.inj done)
  exact ⟨rfl, rfl, rfl⟩

theorem aside_store (done : perform scene (.store type arg) running = some (ending, next)) :
    ending = .proceeds ∧ Aside running next := by
  simp only [perform] at done
  split at done
  · obtain ⟨⟨address, rest⟩, -, done⟩ := bind_eq_some_iff.mp done
    obtain ⟨value, -, done⟩ := bind_eq_some_iff.mp done
    obtain ⟨rfl, rfl⟩ := mk.inj (some.inj done)
    exact ⟨rfl, rfl, rfl⟩
  · cases done

theorem Steady.localSet (steady : Steady placing base running)
    (resolver_eq : scene.resolver = placing.resolver) (has : placing.pool.Has name)
    (other : name ≠ placing.framePointer)
    (done : perform scene (.localSet name) running = some (ending, next)) :
    ending = .proceeds ∧ Steady placing base next := by
  obtain ⟨rfl, executed⟩ := execute_of_perform rfl done
  rw [resolver_eq] at executed
  simp only [execute] at executed
  split at executed
  · rename_i value rest stack_eq
    rw [placing.localIndex_eq has] at executed
    obtain ⟨index, found, executed⟩ := bind_eq_ok.mp executed
    obtain rfl : placing.number name = index := ok.inj found
    obtain ⟨locals, puts, executed⟩ := bind_eq_ok.mp executed
    have same := pure_eq_ok.mp executed
    unfold put at puts
    split at puts
    · injection puts with puts
      refine ⟨rfl, ?_, ?_⟩
      · rw [← same]
        change locals[_]? = _
        rw [← puts, getElem?_set_ne]
        · exact steady.framePointer
        · exact fun sameNumber => other (placing.injective has placing.hasFramePointer sameNumber)
      · change next.globals[0]? = _
        rw [← same]
        exact steady.stackPointer
    · cases puts
  · cases executed

/-! ## Code -/

theorem EndsWell.exitBlock {blocks type around reached inner}
    (ends : EndsWell placing base top (blocks + 1) reached inner)
    (exits : exitBlock type around (reached, inner) = some (ending, next)) :
    EndsWell placing base top blocks ending next := by
  -- What a block leaves behind differs in the operands only.
  have left {machine inner : Machine} {memory_ : memory}
      (leaves : (leaveBlock type around inner).toOption = some machine)
      (framePointer : inner.locals[placing.number placing.framePointer]? = some (.i32 base))
      (stackPointer : inner.globals[0]? = some (.i32 base)) :
      Steady placing base { toMachine := machine, memory := memory_ } := by
    unfold leaveBlock at leaves
    split at leaves
    · obtain rfl := some.inj leaves
      exact ⟨framePointer, stackPointer⟩
    · cases leaves
  cases reached with
  | proceeds =>
    obtain ⟨machine, leaves, exits⟩ := bind_eq_some_iff.mp exits
    obtain ⟨rfl, rfl⟩ := mk.inj (some.inj exits)
    exact left leaves ends.framePointer ends.stackPointer
  | branches depth =>
    cases depth with
    | zero =>
      obtain ⟨machine, leaves, exits⟩ := bind_eq_some_iff.mp exits
      obtain ⟨rfl, rfl⟩ := mk.inj (some.inj exits)
      exact left leaves ends.2.framePointer ends.2.stackPointer
    | succ depth =>
      obtain ⟨rfl, rfl⟩ := mk.inj (some.inj exits)
      exact ⟨Nat.lt_of_succ_lt_succ ends.1, ends.2⟩
  | leaves =>
    obtain ⟨rfl, rfl⟩ := mk.inj (some.inj exits)
    exact ends

namespace KeepsStack

variable {blocks : Nat}

theorem nil : KeepsStack scene placing base top blocks [] := by
  intro running next ending steady done
  obtain ⟨rfl, rfl⟩ := mk.inj (some.inj done)
  exact steady

variable {type : BlockType} {instr : Instr codeRefs}

theorem single (steps : ∀ ⦃running next : Running memory⦄ ⦃ending⦄, Steady placing base running →
      instr.perform scene running = some (ending, next) →
      EndsWell placing base top blocks ending next) :
    KeepsStack scene placing base top blocks [instr] := by
  intro running next ending steady done
  rw [performCode_singleton] at done
  exact steps steady done

theorem append (keepsFirst : KeepsStack scene placing base top blocks first)
    (keepsSecond : KeepsStack scene placing base top blocks second) :
    KeepsStack scene placing base top blocks (first ++ second) := by
  intro running next ending steady done
  rcases performCode_append_eq_some done with ⟨mid, toMiddle, toEnd⟩ | ⟨elsewhere, leaves⟩
  · exact keepsSecond (keepsFirst steady toMiddle) toEnd
  · exact keepsFirst steady leaves

theorem aside (leavesAlone : ∀ ⦃running next : Running memory⦄ ⦃ending⦄,
      instr.perform scene running = some (ending, next) → ending = .proceeds ∧ Aside running next) :
    KeepsStack scene placing base top blocks [instr] := by
  refine single fun running next ending steady done => ?_
  obtain ⟨rfl, aside⟩ := leavesAlone done
  exact steady.aside aside

theorem plain (keeps : CallsKeep scene.invoke) (plain : ∀ instr ∈ code, isPlain instr = true) :
    KeepsStack scene placing base top blocks code := by
  induction code with
  | nil => exact nil
  | cons instr rest ih =>
    rw [← singleton_append]
    refine append (aside fun running next ending done => ?_)
      (ih fun other mem => plain other (mem_cons_of_mem _ mem))
    exact aside_plain keeps (plain instr mem_cons_self) done

theorem branch (within : depth < blocks) :
    KeepsStack scene placing base top blocks [.branch depth] := by
  refine single fun running next ending steady done => ?_
  obtain ⟨rfl, rfl⟩ := mk.inj (some.inj done)
  exact ⟨within, steady⟩

theorem branchIf (within : depth < blocks) :
    KeepsStack scene placing base top blocks [.branchIf depth] := by
  refine single fun running next ending steady done => ?_
  simp only [perform] at done
  split at done
  · obtain ⟨rfl, rfl⟩ := mk.inj (some.inj done)
    split
    · exact steady.withStack _
    · exact ⟨within, steady.withStack _⟩
  · cases done

theorem block (keepsBody : KeepsStack scene placing base top (blocks + 1) body) :
    KeepsStack scene placing base top blocks [.block type body] := by
  refine single fun running next ending steady done => ?_
  obtain ⟨⟨reached, inner⟩, performedBody, exits⟩ := bind_eq_some_iff.mp done
  exact (keepsBody (steady.withStack []) performedBody).exitBlock exits

theorem ifElse (keepsThen : KeepsStack scene placing base top (blocks + 1) thenBody)
    (keepsElse : KeepsStack scene placing base top (blocks + 1) elseBody) :
    KeepsStack scene placing base top blocks [.ifElse type thenBody elseBody] := by
  refine single fun running next ending steady done => ?_
  simp only [perform] at done
  split at done
  · split at done
    · obtain ⟨⟨reached, inner⟩, performedBody, exits⟩ := bind_eq_some_iff.mp done
      exact (keepsElse (steady.withStack []) performedBody).exitBlock exits
    · obtain ⟨⟨reached, inner⟩, performedBody, exits⟩ := bind_eq_some_iff.mp done
      exact (keepsThen (steady.withStack []) performedBody).exitBlock exits
  · cases done

theorem loop (keepsBody : KeepsStack scene placing base top (blocks + 1) body) :
    KeepsStack scene placing base top blocks [.loop type body] := by
  refine single fun running next ending steady done => ?_
  change goRound type running.stack _ scene.rounds running = _ at done
  generalize running.stack = around at done
  generalize scene.rounds = rounds at done
  induction rounds generalizing running with
  | zero => cases done
  | succ rounds ih =>
    obtain ⟨⟨reached, inner⟩, performedBody, done⟩ := bind_eq_some_iff.mp done
    have ends := keepsBody (steady.withStack []) performedBody
    dsimp only at done
    split at done
    · rename_i again
      rw [again] at ends
      exact ih inner ends.2 done
    · exact ends.exitBlock done

end KeepsStack

/-! ## Emitted code -/

/-- What the code of a function refers to has its numbers, and calls keep the stack
pointer. -/
structure Settled (placing : Placing) (scene : Scene codeRefs memory) (size : Nat) : Prop where
  resolver_eq : scene.resolver = placing.resolver
  stackPointer_eq : placing.resolver.globalIndex .stackPointer = .ok 0
  size_eq : (Offset.ofBase FrameNumber.size).value placing.resolver.base = .ok size
  keeps : CallsKeep scene.invoke

theorem Settled.performCode_epilogue (settled : Settled placing scene size)
    (steady : Steady placing base running) :
    performCode scene (epilogue placing.framePointer) running = some (.proceeds,
      { running with globals := running.globals.set 0 (.i32 (base + Int32.ofNat size)) }) := by
  have inside : 0 < running.globals.length := (List.getElem?_eq_some_iff.mp steady.stackPointer).1
  have straight : ∀ instr ∈ epilogue placing.framePointer, instr.isStraight = true := by
    simp [epilogue, Instr.isStraight, NumericOp.usesFloat, NumericOp.signature, ValType.isFloat]
  rw [performCode_of_isStraight straight, settled.resolver_eq]
  have executed := execute_epilogue settled.size_eq settled.stackPointer_eq steady.framePointer
    inside running.stack
  exact congrArg (fun out => (Except.toOption out).map _) executed

/-- Emitted code keeps both pointers, or leaves the function with the stack pointer at the
end of the frame. -/
theorem Emitted.keepsStack (emitted : Emitted ctx passed work code)
    (settled : Settled placing scene size)
    (framePointer_eq : placing.framePointer = ctx.framePointer)
    (locals : ∀ ref, work.locals.Has ref → placing.pool.Has ref) (base : Int32) (blocks : Nat) :
    KeepsStack scene placing base (base + ofNat size) blocks code := by
  induction emitted generalizing blocks with
  | plain plain => exact .plain settled.keeps plain
  | append _ _ keepsFirst keepsSecond => exact (keepsFirst blocks).append (keepsSecond blocks)
  | localSet has other =>
    refine .single fun running next ending steady done => ?_
    obtain ⟨rfl, kept⟩ := steady.localSet settled.resolver_eq (locals _ has)
      (framePointer_eq ▸ other) done
    exact kept
  | load permits =>
    rw [← singleton_append]
    exact .append (.plain settled.keeps (by simp [isPlain]))
      (.aside fun _ _ _ done => aside_load done)
  | store permits puts _ keepsCode =>
    rw [← singleton_append, append_assoc]
    exact .append (.plain settled.keeps (by simp [isPlain])) ((keepsCode blocks).append
      (.aside fun _ _ _ done => aside_store done))
  | leave =>
    intro running next ending steady done
    rw [← framePointer_eq, performCode_append, settled.performCode_epilogue steady] at done
    obtain ⟨rfl, rfl⟩ := mk.inj (some.inj done)
    have inside : 0 < running.globals.length :=
      (List.getElem?_eq_some_iff.mp steady.stackPointer).1
    exact getElem?_set_self inside
  | repeats _ _ keepsCondition keepsBody =>
    have tests : KeepsStack scene placing base (base + ofNat size) (blocks + 2)
        [.numeric .i32Eqz, .branchIf 1] := by
      rw [← singleton_append]
      exact .append (.plain settled.keeps (by simp [isPlain])) (.branchIf (by omega))
    exact .block (.loop ((((keepsCondition _).append tests).append (keepsBody _)).append
      (.branch (by omega))))
  | ifElse _ _ keepsThen keepsElse => exact .ifElse (keepsThen _) (keepsElse _)

/-! ## Functions -/

section

variable (settled : Settled placing scene size)
include settled

/-- A frame can be taken only if the stack pointer is an address and there is a local for
the frame pointer. -/
theorem Settled.executable_of_prologue
    (executed : executeCode placing.resolver (prologue placing.framePointer)
      ⟨[], locals, globals⟩ = .ok machine) :
    ∃ top, globals[0]? = some (.i32 top) ∧ placing.number placing.framePointer < locals.length := by
  obtain ⟨_, gets, executed⟩ := bind_eq_ok.mp executed
  obtain ⟨index, found, gets⟩ := bind_eq_ok.mp gets
  rw [settled.stackPointer_eq] at found
  obtain rfl : 0 = index := ok.inj found
  obtain ⟨value, fetched, gets⟩ := bind_eq_ok.mp gets
  obtain rfl := pure_eq_ok.mp gets
  obtain ⟨_, pushes, executed⟩ := bind_eq_ok.mp executed
  obtain ⟨bytes, -, pushes⟩ := bind_eq_ok.mp pushes
  obtain rfl := pure_eq_ok.mp pushes
  obtain ⟨_, subtracts, executed⟩ := bind_eq_ok.mp executed
  obtain ⟨stack, computed, subtracts⟩ := bind_eq_ok.mp subtracts
  obtain rfl := pure_eq_ok.mp subtracts
  obtain ⟨_, sets, executed⟩ := bind_eq_ok.mp executed
  cases value with
  | i32 top =>
    obtain rfl := ok.inj computed
    obtain ⟨number, found, sets⟩ := bind_eq_ok.mp sets
    rw [placing.localIndex_eq placing.hasFramePointer] at found
    obtain rfl : placing.number placing.framePointer = number := ok.inj found
    obtain ⟨_, puts, -⟩ := bind_eq_ok.mp sets
    refine ⟨top, ?_, ?_⟩
    · unfold fetch at fetched
      split at fetched
      · rename_i value there
        exact there.trans (congrArg some (ok.inj fetched))
      · cases fetched
    · unfold put at puts
      split at puts
      · assumption
      · cases puts
  | i64 _ | f32 _ | f64 _ => cases computed

/-- The prologue moves the stack pointer down, and both pointers are at the frame then. -/
theorem Settled.steady_of_prologue (empty : running.stack = [])
    (done : performCode scene (prologue placing.framePointer) running = some (ending, next)) :
    ∃ top, stackPointerOf running.store = some (.i32 top) ∧ ending = .proceeds ∧
      Steady placing (top - ofNat size) next := by
  have straight : ∀ instr ∈ prologue placing.framePointer, instr.isStraight = true := by
    simp [prologue, isStraight, NumericOp.usesFloat, NumericOp.signature, ValType.isFloat]
  rw [performCode_of_isStraight straight, settled.resolver_eq] at done
  obtain ⟨machine, executes, done⟩ := map_eq_some_iff.mp done
  obtain ⟨rfl, rfl⟩ := mk.inj done
  have machine_eq : running.toMachine = ⟨[], running.locals, running.globals⟩ := by rw [← empty]
  rw [machine_eq] at executes
  cases out : executeCode placing.resolver (prologue placing.framePointer)
      ⟨[], running.locals, running.globals⟩ with
  | error halt =>
    rw [out] at executes
    cases executes
  | ok found =>
    obtain ⟨top, pointed, inside⟩ := settled.executable_of_prologue out
    refine ⟨top, pointed, rfl, ?_⟩
    rw [execute_prologue settled.size_eq settled.stackPointer_eq pointed inside] at executes
    obtain rfl := some.inj executes
    exact ⟨getElem?_set_self inside, getElem?_set_self (List.getElem?_eq_some_iff.mp pointed).1⟩

/-- Code between a prologue and an epilogue ends with the stack pointer where it was. -/
theorem Settled.stackPointer_eq_of_framed (keeps : ∀ base, KeepsStack scene placing base
    (base + Int32.ofNat size) 0 code)
    (empty : running.stack = []) (done : performCode scene
      (prologue placing.framePointer ++ code ++ epilogue placing.framePointer) running =
        some (ending, next)) : stackPointerOf next.store = stackPointerOf running.store := by
  rw [append_assoc] at done
  rcases performCode_append_eq_some done with
    ⟨started, starts, done⟩ | ⟨elsewhere, leaves⟩
  · obtain ⟨top, pointed, -, steady⟩ := settled.steady_of_prologue empty starts
    rw [pointed]
    rcases performCode_append_eq_some done with
      ⟨reached, reaches, done⟩ | ⟨elsewhere, leaves⟩
    · have kept : Steady placing (top - Int32.ofNat size) reached := keeps _ steady reaches
      rw [settled.performCode_epilogue kept, Int32.sub_add_cancel] at done
      obtain ⟨rfl, rfl⟩ := Prod.mk.inj (Option.some.inj done)
      exact getElem?_set_self (List.getElem?_eq_some_iff.mp kept.stackPointer).1
    · have ends := keeps _ steady leaves
      rw [Int32.sub_add_cancel] at ends
      cases ending with
      | proceeds => exact absurd rfl elsewhere
      | branches depth => exact absurd ends.1 (Nat.not_lt_zero depth)
      | leaves => exact ends
  · obtain ⟨_, -, proceeds, -⟩ := settled.steady_of_prologue empty leaves
    exact absurd proceeds elsewhere

end

end StructWasm.Lowering
