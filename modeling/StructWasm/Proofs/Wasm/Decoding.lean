import StructWasm.Proofs.Outcome
import StructWasm.Proofs.Wasm.Reading

/-!
# Code can be read in one way only

The bytes of code have no lengths in them: where the code inside an instruction ends is
told by the marks alone. An instruction is read up to the code inside it, and no mark is
the start of an instruction. So bytes up to an end mark are the code of one list of
instructions at most, if references count by their numbers.
-/

namespace StructWasm.Wasm

open List Except

/-- References that are numbers. -/
def numberRefs : Refs where
  localVar := Nat
  globalVar := Nat
  function := Nat
  base := Empty

/-- The number that was looked up. In code that can be encoded every number is found. -/
def numberOf (outcome : Except Fault Nat) : Nat :=
  outcome.toOption.getD 0

variable {refs : Refs}

def MemArg.numbered (resolver : Resolver refs) (arg : MemArg refs.base) :
    MemArg numberRefs.base where
  alignExponent := arg.alignExponent
  offset := .fixed (numberOf (arg.offset.value resolver.base))

namespace Instr

mutual

/-- The instruction with a number for whatever it refers to. -/
def numbered (resolver : Resolver refs) : Instr refs → Instr numberRefs
  | .block type body => .block type (numberedBody resolver body)
  | .loop type body => .loop type (numberedBody resolver body)
  | .ifElse type thenBody elseBody =>
    .ifElse type (numberedBody resolver thenBody) (numberedBody resolver elseBody)
  | .branch depth => .branch depth
  | .branchIf depth => .branchIf depth
  | .leave => .leave
  | .unreachable => .unreachable
  | .nop => .nop
  | .drop => .drop
  | .select => .select
  | .numeric op => .numeric op
  | .load type arg => .load type (arg.numbered resolver)
  | .store type arg => .store type (arg.numbered resolver)
  | .localGet name => .localGet (numberOf (resolver.localIndex name))
  | .localSet name => .localSet (numberOf (resolver.localIndex name))
  | .localTee name => .localTee (numberOf (resolver.localIndex name))
  | .globalGet name => .globalGet (numberOf (resolver.globalIndex name))
  | .globalSet name => .globalSet (numberOf (resolver.globalIndex name))
  | .const value => .const value
  | .offsetConst offset => .const (.i32 (Int32.ofInt (numberOf (offset.value resolver.base))))
  | .call name => .call (numberOf (resolver.functionIndex name))
termination_by structural instr => instr

def numberedBody (resolver : Resolver refs) : List (Instr refs) → List (Instr numberRefs)
  | [] => []
  | instr :: rest => numbered resolver instr :: numberedBody resolver rest
termination_by structural body => body

end

def hasInside : Instr refs → Bool
  | .block _ _ => true
  | .loop _ _ => true
  | .ifElse _ _ _ => true
  | _ => false

/-- An instruction without the code inside it. -/
def emptied : Instr refs → Instr refs
  | .block type _ => .block type []
  | .loop type _ => .loop type []
  | .ifElse type _ _ => .ifElse type [] []
  | instr => instr

def elsePieces (type : BlockType) (elseBody : List (Instr refs)) : List (Piece refs) :=
  if !elseBody.isEmpty || type != .empty then .known [elseMark] :: bodyPieces elseBody else []

/-- What is written for the code inside an instruction. -/
def insidePieces : Instr refs → List (Piece refs)
  | .block _ body => bodyPieces body ++ elsePieces .empty [] ++ [.known [endMark]]
  | .loop _ body => bodyPieces body ++ elsePieces .empty [] ++ [.known [endMark]]
  | .ifElse type thenBody elseBody =>
    bodyPieces thenBody ++ elsePieces type elseBody ++ [.known [endMark]]
  | _ => []

theorem emptied_of_not_hasInside {instr : Instr refs} (plain : instr.hasInside = false) :
    instr.emptied = instr ∧ instr.insidePieces = [] := by
  cases instr <;> first | exact ⟨rfl, rfl⟩ | cases plain

theorem hasInside_numbered (resolver : Resolver refs) (instr : Instr refs) :
    (instr.emptied.numbered resolver).hasInside = instr.hasInside := by
  cases instr <;> rfl

end Instr

/-! ## Reading instructions up to the code inside them -/

namespace Reader

def blockType : Reader BlockType := do
  let mark ← byte
  (BlockType.empty :: ValType.all.map .value).find? fun type => type.byte == mark

def memArg : Reader (MemArg numberRefs.base) := do
  return { alignExponent := ← unsigned, offset := .fixed (← unsigned) }

/-- What follows an opcode, up to the code inside the instruction. -/
def afterOpcode : UInt8 → Reader (Instr numberRefs)
  | 0x00 => return .unreachable
  | 0x01 => return .nop
  | 0x02 => return .block (← blockType) []
  | 0x03 => return .loop (← blockType) []
  | 0x04 => return .ifElse (← blockType) [] []
  | 0x0C => return .branch (← unsigned)
  | 0x0D => return .branchIf (← unsigned)
  | 0x0F => return .leave
  | 0x10 => do return .call (← unsigned)
  | 0x1A => return .drop
  | 0x1B => return .select
  | 0x20 => do return .localGet (← unsigned)
  | 0x21 => do return .localSet (← unsigned)
  | 0x22 => do return .localTee (← unsigned)
  | 0x23 => do return .globalGet (← unsigned)
  | 0x24 => do return .globalSet (← unsigned)
  | 0x28 => return .load .i32 (← memArg)
  | 0x29 => return .load .i64 (← memArg)
  | 0x2A => return .load .f32 (← memArg)
  | 0x2B => return .load .f64 (← memArg)
  | 0x36 => return .store .i32 (← memArg)
  | 0x37 => return .store .i64 (← memArg)
  | 0x38 => return .store .f32 (← memArg)
  | 0x39 => return .store .f64 (← memArg)
  | opcode =>
    match NumericOp.all.find? fun op => op.opcode == opcode with
    | some op => return .numeric op
    | none => fun rest => (do return .const (← constant) : Reader _) (opcode :: rest)

def instrHead : Reader (Instr numberRefs)
  | [] => none
  | opcode :: rest => afterOpcode opcode rest

theorem reads_instrHead (reads : Reads (afterOpcode opcode) bytes instr) :
    Reads instrHead (opcode :: bytes) instr :=
  reads

theorem reads_blockType (type : BlockType) : Reads blockType [type.byte] type := by
  refine (reads_byte type.byte).bind_nil (reads_lift ?_)
  cases type with
  | empty => rfl
  | value type => cases type <;> rfl

theorem reads_memArg (alignExponent offset : Nat) :
    Reads memArg (Leb128.encodeUnsigned alignExponent ++ Leb128.encodeUnsigned offset)
      { alignExponent, offset := .fixed offset } :=
  (reads_unsigned alignExponent).bind ((reads_unsigned offset).bind_nil (reads_pure _))

theorem reads_numeric (op : NumericOp) : Reads instrHead [op.opcode] (.numeric op) := by
  cases op <;> exact reads_instrHead (reads_pure _)

theorem reads_const (value : Constant) : Reads instrHead value.encode (.const value) := by
  have reads : Reads (do return .const (← constant)) value.encode
      (Instr.const value : Instr numberRefs) :=
    (reads_constant value).bind_nil (reads_pure _)
  -- No operator has the opcode of a constant.
  intro rest
  cases value <;> exact reads rest

end Reader

/-! ## Encoded pieces -/

variable {resolver : Resolver refs} {bytes : Bytes}

theorem encodePieces_cons : encodePieces resolver (piece :: pieces) = .ok bytes ↔ ∃ front back,
      piece.encode resolver = .ok front ∧ encodePieces resolver pieces = .ok back ∧
        front ++ back = bytes := by
  rw [encodePieces]
  cases piece.encode resolver with
  | error cause => simp
  | ok front => cases encodePieces resolver pieces <;> simp

theorem encodePieces_append {first second} :
    encodePieces resolver (first ++ second) = .ok bytes ↔ ∃ front back,
      encodePieces resolver first = .ok front ∧ encodePieces resolver second = .ok back ∧
        front ++ back = bytes := by
  induction first generalizing bytes with
  | nil => simp [encodePieces]
  | cons piece rest ih =>
    simp only [cons_append, encodePieces_cons, ih]
    constructor
    · rintro ⟨_, _, here, ⟨_, _, first, second, rfl⟩, rfl⟩
      exact ⟨_, _, ⟨_, _, here, first, rfl⟩, second, append_assoc _ _ _⟩
    · rintro ⟨_, _, ⟨_, _, here, first, rfl⟩, second, rfl⟩
      exact ⟨_, _, here, ⟨_, _, first, second, rfl⟩, (append_assoc _ _ _).symm⟩

theorem encodePieces_known {known} :
    encodePieces resolver (.known known :: pieces) = .ok bytes ↔ ∃ back,
      encodePieces resolver pieces = .ok back ∧ known ++ back = bytes := by
  simp [encodePieces_cons, Piece.encode]

theorem encodePieces_singleton :
    encodePieces resolver [piece] = .ok bytes ↔ piece.encode resolver = .ok bytes := by
  rw [encodePieces_cons]
  simp [encodePieces]

theorem encode_index
    (encoded : (do return Leb128.encodeUnsigned (← out)) = (.ok bytes : Except Fault Bytes)) :
    bytes = Leb128.encodeUnsigned (numberOf out) := by
  obtain ⟨number, rfl, written⟩ := bind_eq_ok.mp encoded
  exact (pure_eq_ok.mp written).symm

theorem encodePieces_ended :
    encodePieces resolver (pieces ++ [.known [endMark]]) = .ok bytes ↔ ∃ front,
      encodePieces resolver pieces = .ok front ∧ front ++ [endMark] = bytes := by
  simp [encodePieces_append, encodePieces_singleton, Piece.encode]

namespace Instr

open Reader

/-- The bytes of an instruction start with what is read up to the code inside it. -/
theorem reads_of_encode {instr : Instr refs}
    (encoded : encodePieces resolver instr.pieces = .ok bytes) :
    ∃ front back, bytes = front ++ back ∧ Reads instrHead front (instr.emptied.numbered resolver) ∧
      encodePieces resolver instr.insidePieces = .ok back := by
  have whole {made : Instr numberRefs} (reads : Reads instrHead bytes made) :
      ∃ front back, bytes = front ++ back ∧ Reads instrHead front made ∧
        encodePieces resolver [] = .ok back :=
    ⟨bytes, [], (append_nil _).symm, reads, rfl⟩
  cases instr with
  | block type body | loop type body =>
    obtain ⟨back, inside, rfl⟩ := encodePieces_known.mp encoded
    refine ⟨_, back, rfl, reads_instrHead ((reads_blockType type).bind_nil (reads_pure _)), ?_⟩
    rw [insidePieces, show elsePieces .empty [] = ([] : List (Piece refs)) from rfl, append_nil]
    exact inside
  | ifElse type thenBody elseBody =>
    obtain ⟨back, inside, rfl⟩ := encodePieces_known.mp encoded
    exact ⟨_, back, rfl, reads_instrHead ((reads_blockType type).bind_nil (reads_pure _)), inside⟩
  | load type arg | store type arg =>
    obtain ⟨_, offset, rfl⟩ := encodePieces_known.mp encoded
    obtain rfl := encode_index (encodePieces_singleton.mp offset)
    cases type <;> exact whole (reads_instrHead ((reads_memArg _ _).bind_nil (reads_pure _)))
  | localGet name | localSet name | localTee name | globalGet name | globalSet name | call name =>
    obtain ⟨_, index, rfl⟩ := encodePieces_known.mp encoded
    obtain rfl := encode_index (encodePieces_singleton.mp index)
    exact whole (reads_instrHead ((reads_unsigned _).bind_nil (reads_pure _)))
  | offsetConst offset =>
    obtain ⟨value, valued, written⟩ := bind_eq_ok.mp (encodePieces_singleton.mp encoded)
    unfold encodeOffsetConst at written
    split at written
    · rename_i small
      obtain rfl := ok.inj written
      have value_eq : (Int32.ofInt value).toInt = value :=
        Int32.toInt_ofInt_of_le (by omega) (by omega)
      have reads := reads_const (.i32 (Int32.ofInt value))
      rw [Constant.encode, value_eq] at reads
      have number_eq : numberOf (offset.value resolver.base) = value := by rw [valued]; rfl
      exact whole (number_eq ▸ reads)
    · cases written
  | branch depth | branchIf depth =>
    obtain rfl := ok.inj (encodePieces_singleton.mp encoded)
    exact whole (reads_instrHead ((reads_unsigned depth).bind_nil (reads_pure _)))
  | numeric op =>
    obtain rfl := ok.inj (encodePieces_singleton.mp encoded)
    exact whole (reads_numeric op)
  | const value =>
    obtain rfl := ok.inj (encodePieces_singleton.mp encoded)
    exact whole (reads_const value)
  | leave | unreachable | nop | drop | select =>
    obtain rfl := ok.inj (encodePieces_singleton.mp encoded)
    exact whole (reads_instrHead (reads_pure _))

theorem elsePieces_encoded
    (encoded : encodePieces resolver (elsePieces type elseBody) = .ok bytes) :
    elseBody = [] ∧ bytes = [] ∨ ∃ inner, encodePieces resolver (bodyPieces elseBody) = .ok inner ∧
        bytes = elseMark :: inner := by
  unfold elsePieces at encoded
  split at encoded
  · obtain ⟨inner, inside, rfl⟩ := encodePieces_known.mp encoded
    exact .inr ⟨inner, inside, rfl⟩
  · rename_i leftOut
    obtain ⟨isEmpty, -⟩ : elseBody = [] ∧ type = .empty := by simpa using leftOut
    exact .inl ⟨isEmpty, (ok.inj encoded).symm⟩

theorem instrHead_elsePieces
    (encoded : encodePieces resolver (elsePieces type elseBody) = .ok bytes) :
    instrHead (bytes ++ ([endMark] ++ rest)) = none := by
  rcases elsePieces_encoded encoded with ⟨-, rfl⟩ | ⟨inner, -, rfl⟩ <;> rfl

/-- An instruction is known from its bytes, whatever follows them. -/
def Unique (resolver : Resolver refs) (instr : Instr refs) : Prop :=
  ∀ ⦃others : Refs⦄ ⦃otherResolver : Resolver others⦄ ⦃other : Instr others⦄
    ⦃bytes otherBytes rest otherRest : Bytes⦄, encodePieces resolver instr.pieces = .ok bytes →
    encodePieces otherResolver other.pieces = .ok otherBytes →
    bytes ++ rest = otherBytes ++ otherRest →
    rest = otherRest ∧ instr.numbered resolver = other.numbered otherResolver

/-- Code is known from its bytes, if no instruction follows them. -/
def UniqueBody (resolver : Resolver refs) (body : List (Instr refs)) : Prop :=
  ∀ ⦃others : Refs⦄ ⦃otherResolver : Resolver others⦄ ⦃otherBody : List (Instr others)⦄
    ⦃bytes otherBytes rest otherRest : Bytes⦄, encodePieces resolver (bodyPieces body) = .ok bytes →
    encodePieces otherResolver (bodyPieces otherBody) = .ok otherBytes →
    instrHead rest = none → instrHead otherRest = none →
    bytes ++ rest = otherBytes ++ otherRest →
    rest = otherRest ∧ numberedBody resolver body = numberedBody otherResolver otherBody

theorem uniqueBody_nil (resolver : Resolver refs) : UniqueBody resolver [] := by
  intro others otherResolver otherBody bytes otherBytes rest otherRest encoded otherEncoded
    stops otherStops same
  cases encoded
  cases otherBody with
  | nil =>
    cases otherEncoded
    exact ⟨same, rfl⟩
  | cons other otherBody =>
    obtain ⟨_, _, first, _, rfl⟩ := encodePieces_append.mp otherEncoded
    obtain ⟨_, _, rfl, reads, -⟩ := reads_of_encode first
    rw [nil_append, append_assoc, append_assoc] at same
    rw [same, reads] at stops
    cases stops

theorem UniqueBody.cons {instr : Instr refs} {body} (unique : instr.Unique resolver)
    (uniqueBody : UniqueBody resolver body) : UniqueBody resolver (instr :: body) := by
  intro others otherResolver otherBody bytes otherBytes rest otherRest encoded otherEncoded
    stops otherStops same
  obtain ⟨_, _, first, later, rfl⟩ := encodePieces_append.mp encoded
  cases otherBody with
  | nil =>
    cases otherEncoded
    obtain ⟨_, _, rfl, reads, -⟩ := reads_of_encode first
    rw [nil_append, append_assoc, append_assoc] at same
    rw [← same, reads] at otherStops
    cases otherStops
  | cons other otherBody =>
    obtain ⟨_, _, otherFirst, otherLater, rfl⟩ := encodePieces_append.mp otherEncoded
    rw [append_assoc, append_assoc] at same
    obtain ⟨rests, instr_eq⟩ := unique first otherFirst same
    obtain ⟨rest_eq, body_eq⟩ := uniqueBody later otherLater stops otherStops rests
    exact ⟨rest_eq, by rw [numberedBody, numberedBody, instr_eq, body_eq]⟩

variable {others : Refs}

/-- The marks tell the code inside an instruction from what follows. -/
theorem UniqueBody.inside
    (uniqueThen : UniqueBody resolver thenBody) (uniqueElse : UniqueBody resolver elseBody)
    (encoded : encodePieces resolver
      (bodyPieces thenBody ++ elsePieces type elseBody ++ [.known [endMark]]) = .ok bytes)
    (otherEncoded : encodePieces otherResolver
      (bodyPieces otherThen ++ elsePieces type otherElse ++ [.known [endMark]]) = .ok otherBytes)
    (same : bytes ++ rest = otherBytes ++ otherRest) :
    rest = otherRest ∧ numberedBody resolver thenBody = numberedBody otherResolver otherThen ∧
      numberedBody resolver elseBody = numberedBody otherResolver otherElse := by
  obtain ⟨_, both, rfl⟩ := encodePieces_ended.mp encoded
  obtain ⟨_, otherBoth, rfl⟩ := encodePieces_ended.mp otherEncoded
  obtain ⟨_, _, thenEncoded, elseEncoded, rfl⟩ := encodePieces_append.mp both
  obtain ⟨_, _, otherThenEncoded, otherElseEncoded, rfl⟩ := encodePieces_append.mp otherBoth
  simp only [append_assoc] at same
  obtain ⟨rests, then_eq⟩ := uniqueThen thenEncoded otherThenEncoded
    (instrHead_elsePieces elseEncoded) (instrHead_elsePieces otherElseEncoded) same
  rcases elsePieces_encoded elseEncoded with ⟨rfl, rfl⟩ | ⟨inner, elseInner, rfl⟩ <;>
    rcases elsePieces_encoded otherElseEncoded with ⟨rfl, rfl⟩ | ⟨otherInner, otherElseInner, rfl⟩
  · exact ⟨(cons.inj rests).2, then_eq, rfl⟩
  · exact absurd (cons.inj rests).1 (by decide)
  · exact absurd (cons.inj rests).1 (by decide)
  · obtain ⟨rest_eq, else_eq⟩ := uniqueElse elseInner otherElseInner rfl rfl (cons.inj rests).2
    exact ⟨(cons.inj rest_eq).2, then_eq, else_eq⟩

theorem heads_eq {instr : Instr refs} {other : Instr others}
    (encoded : encodePieces resolver instr.pieces = .ok bytes)
    (otherEncoded : encodePieces otherResolver other.pieces = .ok otherBytes)
    (same : bytes ++ rest = otherBytes ++ otherRest) :
    instr.emptied.numbered resolver = other.emptied.numbered otherResolver ∧
      ∃ back otherBack, encodePieces resolver instr.insidePieces = .ok back ∧
        encodePieces otherResolver other.insidePieces = .ok otherBack ∧
        back ++ rest = otherBack ++ otherRest := by
  obtain ⟨front, back, rfl, reads, inside⟩ := reads_of_encode encoded
  obtain ⟨otherFront, otherBack, rfl, otherReads, otherInside⟩ := reads_of_encode otherEncoded
  rw [append_assoc, append_assoc] at same
  have both := reads (back ++ rest)
  rw [same, otherReads] at both
  obtain ⟨heads, rests⟩ := Prod.mk.inj (Option.some.inj both)
  exact ⟨heads.symm, back, otherBack, inside, otherInside, rests.symm⟩

theorem unique_of_not_hasInside {instr : Instr refs} (plain : instr.hasInside = false) :
    instr.Unique resolver := by
  intro others otherResolver other bytes otherBytes rest otherRest encoded otherEncoded same
  obtain ⟨heads, back, otherBack, inside, otherInside, rests⟩ := heads_eq encoded otherEncoded same
  have alike : other.hasInside = false := by
    rw [← hasInside_numbered otherResolver other, ← heads, hasInside_numbered, plain]
  obtain ⟨emptied_eq, inside_eq⟩ := emptied_of_not_hasInside plain
  obtain ⟨otherEmptied_eq, otherInside_eq⟩ := emptied_of_not_hasInside alike
  rw [emptied_eq, otherEmptied_eq] at heads
  rw [inside_eq] at inside
  rw [otherInside_eq] at otherInside
  cases inside
  cases otherInside
  exact ⟨rests, heads⟩

mutual

theorem unique (resolver : Resolver refs) (instr : Instr refs) : instr.Unique resolver := by
  cases instr with
  | block type body | loop type body =>
    intro others otherResolver other bytes otherBytes rest otherRest encoded otherEncoded same
    obtain ⟨heads, back, otherBack, inside, otherInside, rests⟩ :=
      heads_eq encoded otherEncoded same
    cases other <;> cases heads
    obtain ⟨rest_eq, body_eq, -⟩ :=
      (uniqueBody resolver body).inside (uniqueBody_nil resolver) inside otherInside rests
    exact ⟨rest_eq, by rw [numbered, numbered, body_eq]⟩
  | ifElse type thenBody elseBody =>
    intro others otherResolver other bytes otherBytes rest otherRest encoded otherEncoded same
    obtain ⟨heads, back, otherBack, inside, otherInside, rests⟩ :=
      heads_eq encoded otherEncoded same
    cases other <;> cases heads
    obtain ⟨rest_eq, then_eq, else_eq⟩ :=
      (uniqueBody resolver thenBody).inside (uniqueBody resolver elseBody) inside otherInside rests
    exact ⟨rest_eq, by rw [numbered, numbered, then_eq, else_eq]⟩
  | _ => exact unique_of_not_hasInside rfl
termination_by structural instr

theorem uniqueBody (resolver : Resolver refs) (body : List (Instr refs)) :
    UniqueBody resolver body := by
  cases body with
  | nil => exact uniqueBody_nil resolver
  | cons instr body => exact .cons (unique resolver instr) (uniqueBody resolver body)
termination_by structural body

end

end Instr

variable {others : Refs}

/-- Bytes up to an end mark are the code of one list of instructions at most, up to the
names of the numbers in it. -/
theorem code_unique {otherResolver : Resolver others} {code : List (Instr refs)}
    {otherCode : List (Instr others)} {otherBytes rest otherRest : Bytes}
    (encoded : encodeCode resolver code = .ok bytes)
    (otherEncoded : encodeCode otherResolver otherCode = .ok otherBytes)
    (same : bytes ++ [endMark] ++ rest = otherBytes ++ [endMark] ++ otherRest) :
    rest = otherRest ∧
      Instr.numberedBody resolver code = Instr.numberedBody otherResolver otherCode := by
  rw [append_assoc, append_assoc] at same
  obtain ⟨rest_eq, code_eq⟩ :=
    Instr.uniqueBody resolver code encoded otherEncoded rfl rfl same
  exact ⟨(cons.inj rest_eq).2, code_eq⟩

/-- A place in memory is written as the constant that it is. -/
theorem code_unique_nested :
    let resolver : Resolver ⟨Nat, Nat, Nat, Nat⟩ := ⟨.ok, .ok, .ok, .ok⟩
    let code last : List (Instr ⟨Nat, Nat, Nat, Nat⟩) :=
      [.block .empty [.ifElse (.value .i32) [.localGet 2] [], last, .drop]]
    let bytes := [0x02, 0x40, 0x04, 0x7F, 0x20, 0x02, 0x05, 0x0B, 0x41, 0x0B, 0x1A, 0x0B]
    encodeCode resolver (code (.const (.i32 11))) = .ok bytes ∧
      encodeCode resolver (code (.offsetConst ⟨some 8, 3⟩)) = .ok bytes ∧
      Instr.numberedBody resolver (code (.const (.i32 11))) =
        Instr.numberedBody resolver (code (.offsetConst ⟨some 8, 3⟩)) := by
  intro resolver code bytes
  have encoded : encodeCode resolver (code (.const (.i32 11))) = .ok bytes := by cbv
  have otherEncoded : encodeCode resolver (code (.offsetConst ⟨some 8, 3⟩)) = .ok bytes := by cbv
  exact ⟨encoded, otherEncoded, (@code_unique _ _ _ _ _ _ _ _ [] [] encoded otherEncoded rfl).2⟩

end StructWasm.Wasm
