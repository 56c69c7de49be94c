import StructWasm.Proofs.Wasm.Numbering
import StructWasm.Proofs.Wasm.Reading
import StructWasm.Wasm.Binary

/-!
# What a binary holds

A reader of whole binaries: the fixed start, the sections up to the end of the bytes, and
the lists in the sections. The binary of a module is read back as the lists that the module
was written from.
-/

namespace StructWasm.Wasm

open List Reader

/-- What kind of thing is exported. -/
inductive ExportKind where
  | function
  | memory
  | global
  deriving DecidableEq, Repr

/-- The locals of a function in groups of one type, and the bytes of its code. -/
structure CodeEntry where
  /-- Groups of locals. -/
  locals : List (Nat × ValType)
  /-- Bytes of the code, without the mark at the end. -/
  code : Bytes
  deriving DecidableEq, Repr

/-- Bytes of a function body, after their number. -/
def CodeEntry.encode (entry : CodeEntry) : Bytes :=
  Leb128.lengthPrefixed (encodeLocals entry.locals ++ entry.code ++ [endMark])

/-- What a binary holds. -/
structure Contents where
  /-- The signatures. -/
  types : List FuncType
  /-- The imported functions. -/
  imports : List Import
  /-- Indices of the signatures of the functions. -/
  functions : List Nat
  /-- Sizes of the memories. -/
  memories : List Memory
  /-- The globals after their types. -/
  globals : List (ValType × Global)
  /-- Names, kinds and indices of the exports. -/
  exports : List (String × ExportKind × Nat)
  /-- Index of the function that runs at the start. -/
  start? : Option Nat
  /-- The bodies of the functions. -/
  code : List CodeEntry
  /-- Bytes put into memory at the start. -/
  data : List DataSegment
  /-- Name and data of a section for the use of tools. -/
  custom? : Option (String × Bytes)
  deriving DecidableEq, Repr

namespace Reader

/-! ## Entries of sections -/

def importEntry : Reader Import := do
  let moduleName ← framed text
  let name ← framed text
  expect functionMark
  return { moduleName, name, typeIndex := ← unsigned }

def memory : Reader Memory := do
  match ← byte with
  | 0x00 => return { minimum := ← unsigned, maximum := none }
  | 0x01 => return { minimum := ← unsigned, maximum := some (← unsigned) }
  | _ => failure

/-- Whether a global can be set. -/
def mutability : Reader Bool := do
  match ← byte with
  | 0x00 => return false
  | 0x01 => return true
  | _ => failure

def global : Reader (ValType × Global) := do
  let type ← valType
  let isMutable ← mutability
  let initial ← constant
  expect endMark
  return (type, { isMutable, initial })

def exportKind : Reader ExportKind := do
  match ← byte with
  | 0x00 => return .function
  | 0x02 => return .memory
  | 0x03 => return .global
  | _ => failure

/-- Name, kind and index of an export. -/
def exportEntry : Reader (String × ExportKind × Nat) := do
  return (← framed text, ← exportKind, ← unsigned)

def localGroup : Reader (Nat × ValType) := do
  return (← unsigned, ← valType)

/-- Code up to the mark at its end. -/
def expression : Reader Bytes := do
  let bytes ← remaining
  if bytes.getLast? = some endMark then return bytes.dropLast else failure

/-- The body of a function, after its length. -/
def codeEntry : Reader CodeEntry :=
  framed do return { locals := ← vector localGroup, code := ← expression }

/-- Bytes with the address where they go, which is written as a signed constant. -/
def dataSegment : Reader DataSegment := do
  expect 0x00
  match ← constant with
  | .i32 offset =>
    expect endMark
    return { offset := offset.toUInt32, bytes := ← framed remaining }
  | _ => failure

/-- Name and data of a section for the use of tools. -/
def customData : Reader (String × Bytes) := do
  return (← framed text, ← remaining)

def sectionPart : Reader Section := do
  return { id := ← byte, payload := ← framed remaining }

/-- Items up to the end of the bytes, at most so many. -/
def untilEnd {α : Type} (item : Reader α) : Nat → Bytes → Option (List α)
  | _, [] => some []
  | 0, _ => none
  | limit + 1, bytes => do
      let (value, rest) ← item bytes
      return value :: (← item.untilEnd limit rest)

end Reader

namespace Contents

/-- The numbers of the sections, in the order in which they stand. -/
def sectionOrder : List UInt8 :=
  [1, 2, 3, 5, 6, 7, 8, 10, 11, 0]

/-- What the section with a number holds, if it is there. -/
def part {α : Type} (sections : List Section) (id : UInt8) (reader : Reader α) :
    Option (Option α) :=
  match sections.find? fun entry => entry.id == id with
  | none => some none
  | some entry => (reader.exhaust entry.payload).map some

/-- The list that the section with a number holds; it is empty without the section. -/
def entries {α : Type} (sections : List Section) (id : UInt8) (item : Reader α) :
    Option (List α) :=
  (part sections id (.vector item)).map fun found => found.getD []

def ofSections? (sections : List Section) : Option Contents := do
  return {
    types := ← entries sections 1 .funcType
    imports := ← entries sections 2 .importEntry
    functions := ← entries sections 3 .unsigned
    memories := ← entries sections 5 .memory
    globals := ← entries sections 6 .global
    exports := ← entries sections 7 .exportEntry
    start? := ← part sections 8 .unsigned
    code := ← entries sections 10 .codeEntry
    data := ← entries sections 11 .dataSegment
    custom? := ← part sections 0 .customData }

/-- What a binary holds. The sections stand in their order and fill the binary. -/
def read? (bytes : Bytes) : Option Contents := do
  guard (header.isPrefixOf bytes)
  let body := bytes.drop header.length
  let sections ← Reader.sectionPart.untilEnd body.length body
  guard ((sections.map Section.id).isSublist sectionOrder)
  ofSections? sections

end Contents

namespace Reader

/-! ## Entries that are read back -/

theorem reads_import (entry : Import) : Reads importEntry entry.encode entry := by
  rw [Import.encode, append_assoc]
  exact (reads_name _).bind ((reads_name _).bind ((reads_expect _).bind
    ((reads_unsigned _).bind_nil (reads_pure _))))

theorem reads_memory (entry : Memory) : Reads memory entry.encode entry := by
  obtain ⟨minimum, maximum⟩ := entry
  cases maximum with
  | none => exact (reads_byte 0x00).bind ((reads_unsigned minimum).bind_nil (reads_pure _))
  | some maximum =>
    exact (reads_byte 0x01).bind ((reads_unsigned minimum).bind
      ((reads_unsigned maximum).bind_nil (reads_pure _)))

theorem reads_mutability (isMutable : Bool) :
    Reads mutability [if isMutable then 0x01 else 0x00] isMutable := by
  cases isMutable with
  | false => exact (reads_byte 0x00).bind_nil (reads_pure _)
  | true => exact (reads_byte 0x01).bind_nil (reads_pure _)

theorem reads_global (entry : Global) : Reads global entry.encode (entry.initial.type, entry) :=
  (reads_valType _).bind ((reads_mutability _).bind ((reads_constant _).bind
    ((reads_expect _).bind_nil (reads_pure _))))

theorem reads_localGroup (group : Nat × ValType) :
    Reads localGroup (Leb128.encodeUnsigned group.1 ++ [group.2.byte]) group :=
  (reads_unsigned _).bind ((reads_valType _).bind_nil (reads_pure _))

theorem reads_localGroups (locals : List (Nat × ValType)) :
    Reads (vector localGroup) (encodeLocals locals) locals := by
  have each := reads_vector (forall₂_reads_map id reads_localGroup locals)
  rw [map_id, length_map, ← flatMap_def] at each
  exact each

theorem exhaust_expression (code : Bytes) : expression.exhaust (code ++ [endMark]) = some code := by
  rw [exhaust_eq_some]
  show (ite _ _ _ : Reader Bytes) [] = _
  rw [if_pos (getLast?_concat ..), dropLast_concat]
  rfl

theorem reads_codeEntry (entry : CodeEntry) : Reads codeEntry entry.encode entry := by
  rw [CodeEntry.encode, append_assoc]
  exact reads_framed ((reads_localGroups _).exhaust_bind (exhaust_bind_pure (exhaust_expression _)))

theorem reads_framed_remaining (bytes : Bytes) :
    Reads (framed remaining) (Leb128.lengthPrefixed bytes) bytes :=
  reads_framed rfl

theorem reads_dataSegment (segment : DataSegment) : Reads dataSegment segment.encode segment := by
  refine (reads_expect _).bind ((reads_constant (.i32 segment.offset.toInt32)).bind
    ((reads_expect _).bind ((reads_framed_remaining segment.bytes).bind_nil ?_)))
  rw [UInt32.toUInt32_toInt32]
  exact reads_pure _

theorem exhaust_customData (name : String) (data : Bytes) :
    customData.exhaust (Section.custom name data).payload = some (name, data) :=
  (reads_name name).exhaust_bind (exhaust_bind_pure rfl)

theorem reads_section (entry : Section) : Reads sectionPart entry.encode entry :=
  (reads_byte _).bind ((reads_framed_remaining _).bind_nil (reads_pure _))

/-- Items that fill the bytes are read up to the end. -/
theorem untilEnd_flatten {α : Type} {item : Reader α} {parts : List Bytes} {values}
    (each : List.Forall₂ item.Reads parts values) (filled : ∀ part ∈ parts, part ≠ []) {limit}
    (enough : parts.length ≤ limit) : item.untilEnd limit parts.flatten = some values := by
  induction each generalizing limit with
  | nil => cases limit <;> rfl
  | @cons part value parts values first _ ih =>
    rw [forall_mem_cons] at filled
    cases limit with
    | zero => cases enough
    | succ limit =>
      obtain ⟨byte, rest, part_eq⟩ := exists_cons_of_ne_nil filled.1
      have later := ih filled.2 (Nat.le_of_succ_le_succ enough)
      have unfold_eq : item.untilEnd (limit + 1) (part ++ parts.flatten) =
          (item (part ++ parts.flatten)).bind fun found =>
            (item.untilEnd limit found.2).bind fun others => some (found.1 :: others) := by
        rw [part_eq]
        rfl
      rw [flatten_cons, unfold_eq, first]
      show (item.untilEnd limit parts.flatten).bind _ = _
      rw [later]
      rfl

end Reader

namespace Module

variable {body : Type}

/-- Kind and index of what is exported. -/
def exported (mod : Module body) : ExportTarget → ExportKind × Nat
  | .function function => (.function, mod.functionIndex function)
  | .global pos => (.global, pos)
  | .memory => (.memory, 0)

/-- An export as it is written, with the place of what is exported. -/
def encodeExport (mod : Module body) (entry : Export) : Bytes :=
  Leb128.name entry.name ++
    match entry.target with
    | .function function => functionMark :: Leb128.encodeUnsigned (mod.functionIndex function)
    | .global pos => globalMark :: Leb128.encodeUnsigned pos
    | .memory => memoryMark :: Leb128.encodeUnsigned 0

theorem reads_export (mod : Module body) (entry : Export) :
    exportEntry.Reads (mod.encodeExport entry) (entry.name, mod.exported entry.target) := by
  obtain ⟨name, target⟩ := entry
  have kind : ∀ mark kind index, exportKind.Reads [mark] kind →
      exportEntry.Reads (Leb128.name name ++ mark :: Leb128.encodeUnsigned index)
        (name, kind, index) := fun mark kind index reads =>
    (reads_name name).bind (reads.bind ((reads_unsigned index).bind_nil (reads_pure _)))
  cases target with
  | function function => exact kind _ _ _ ((reads_byte 0x00).bind_nil (reads_pure _))
  | global pos => exact kind _ _ _ ((reads_byte 0x03).bind_nil (reads_pure _))
  | memory => exact kind _ _ _ ((reads_byte 0x02).bind_nil (reads_pure _))

/-- What the binary of a module holds, given the bodies of its functions. -/
def contents (mod : Module body) (code : List CodeEntry) : Contents where
  types := mod.types
  imports := mod.imports
  functions := mod.functions.map Function.typeIndex
  memories := mod.memory?.toList
  globals := mod.globals.map fun entry => (entry.initial.type, entry)
  exports := mod.exports.map fun entry => (entry.name, mod.exported entry.target)
  start? := mod.start?.map mod.functionIndex
  code := code
  data := mod.data
  custom? := if mod.embedSourceMap then
      mod.completeSourceMap?.map fun map => (sourceMapSectionName, Bytes.utf8 map.jsonText)
    else
      none

end Module

/-! ## Sections under their numbers -/

section Numbered

variable {ids : List UInt8} {candidates : List (Option Section)}

/-- A section has a number, if it is there. -/
def Numbered (id : UInt8) (candidate : Option Section) : Prop :=
  ∀ entry, candidate = some entry → entry.id = id

theorem isSome_ofVector? (id : UInt8) (parts : List Bytes) :
    (Section.ofVector? id parts).isSome = !parts.isEmpty := by
  rw [Section.ofVector?]
  cases parts <;> rfl

theorem numbered_ofVector? (id : UInt8) (parts : List Bytes) :
    Numbered id (Section.ofVector? id parts) := by
  intro entry found
  rw [Section.ofVector?] at found
  split at found
  · cases found
  · cases found
    rfl

theorem filterMap_id_cons (entry : Section) (candidates : List (Option Section)) :
    (some entry :: candidates).filterMap id = entry :: candidates.filterMap id :=
  rfl

section

variable (numbered : List.Forall₂ Numbered ids candidates)
include numbered

theorem map_id_eq : (candidates.filterMap id).map Section.id =
      (ids.zip (candidates.map Option.isSome)).filterMap fun place =>
        if place.2 then some place.1 else none := by
  induction numbered with
  | nil => rfl
  | @cons number candidate ids candidates isNumbered _ ih =>
    cases candidate with
    | none => exact ih
    | some entry =>
      rw [filterMap_id_cons, map_cons, isNumbered entry rfl, ih]
      rfl

theorem map_id_sublist : ((candidates.filterMap id).map Section.id).Sublist ids := by
  induction numbered with
  | nil => exact .slnil
  | @cons number candidate ids candidates isNumbered _ ih =>
    cases candidate with
    | none => exact ih.cons number
    | some entry =>
      rw [filterMap_id_cons, map_cons, isNumbered entry rfl]
      exact ih.cons_cons number

theorem find?_eq_none (absent : number ∉ ids) :
    (candidates.filterMap id).find? (fun entry => entry.id == number) = none := by
  rw [List.find?_eq_none]
  intro entry mem same
  obtain ⟨candidate, listed, found⟩ := mem_filterMap.mp mem
  obtain ⟨id, placed, isNumbered⟩ := exists_of_forall₂ numbered listed
  rw [beq_iff_eq, isNumbered entry found] at same
  exact absent (same ▸ placed)

/-- A section is found by its number. -/
theorem find?_eq (distinct : ids.Nodup) (placed : (number, candidate) ∈ ids.zip candidates) :
    (candidates.filterMap id).find? (fun entry => entry.id == number) = candidate := by
  induction numbered with
  | nil => cases placed
  | @cons first candidateFirst ids candidates isNumbered numbered ih =>
    rw [nodup_cons] at distinct
    rcases mem_cons.mp placed with same | later
    · obtain ⟨rfl, rfl⟩ := Prod.mk.inj same
      cases candidate with
      | none => exact find?_eq_none numbered distinct.1
      | some entry =>
        rw [filterMap_id_cons, find?_cons_of_pos]
        rw [beq_iff_eq, isNumbered entry rfl]
    · have differs : first ≠ number := by
        rintro rfl
        exact distinct.1 (of_mem_zip later).1
      cases candidateFirst with
      | none => exact ih distinct.2 later
      | some entry =>
        rw [filterMap_id_cons, find?_cons_of_neg]
        · exact ih distinct.2 later
        · rw [beq_iff_eq, isNumbered entry rfl]
          exact differs

end

end Numbered

namespace Contents

variable {α β : Type} {sections : List Section} {number : UInt8}

theorem part_of_map {source? : Option α} {make : α → Section} (view : α → β)
    (each : ∀ value, reader.exhaust (make value).payload = some (view value))
    (found : sections.find? (fun entry => entry.id == number) = source?.map make) :
    part sections number reader = some (source?.map view) := by
  rw [part, found]
  cases source? with
  | none => rfl
  | some value =>
    show Option.map _ _ = _
    rw [each]
    rfl

theorem entries_ofVector? {item : Reader β} {write : α → Bytes} {values : List α} (view : α → β)
    (each : ∀ value, item.Reads (write value) (view value))
    (found : sections.find? (fun entry => entry.id == number) =
      Section.ofVector? number (values.map write)) :
    entries sections number item = some (values.map view) := by
  rw [Section.ofVector?] at found
  cases values with
  | nil =>
    rw [entries, part, found]
    rfl
  | cons value values =>
    have reads := reads_vector (forall₂_reads_map view each (value :: values))
    rw [entries, part, found]
    show Option.map _ (Option.map _ _) = _
    rw [reads.exhaust]
    rfl

end Contents

namespace Module

variable {body : Type}

/-- The sections that a module may have, in their order. -/
def candidates (mod : Module body) (code : List Bytes) : List (Option Section) :=
  [Section.ofVector? 1 (mod.types.map FuncType.encode),
    Section.ofVector? 2 (mod.imports.map Import.encode),
    Section.ofVector? 3 (mod.functions.map fun entry => Leb128.encodeUnsigned entry.typeIndex),
    Section.ofVector? 5 (mod.memory?.toList.map Memory.encode),
    Section.ofVector? 6 (mod.globals.map Global.encode),
    Section.ofVector? 7 (mod.exports.map mod.encodeExport),
    mod.start?.map fun function =>
      { id := 8, payload := Leb128.encodeUnsigned (mod.functionIndex function) },
    Section.ofVector? 10 code,
    Section.ofVector? 11 (mod.data.map DataSegment.encode),
    mod.sourceMapSection? mod.completeSourceMap?]

theorem numbered_candidates (mod : Module body) (code : List Bytes) :
    List.Forall₂ Numbered Contents.sectionOrder (mod.candidates code) := by
  have start : Numbered 8 (mod.start?.map fun function =>
      { id := 8, payload := Leb128.encodeUnsigned (mod.functionIndex function) }) := by
    intro entry found
    obtain ⟨_, -, rfl⟩ := Option.map_eq_some_iff.mp found
    rfl
  have map : Numbered 0 (mod.sourceMapSection? mod.completeSourceMap?) := by
    intro entry found
    rw [sourceMapSection?] at found
    split at found
    · obtain ⟨_, -, rfl⟩ := Option.map_eq_some_iff.mp found
      rfl
    · cases found
  exact .cons (numbered_ofVector? _ _) (.cons (numbered_ofVector? _ _)
    (.cons (numbered_ofVector? _ _) (.cons (numbered_ofVector? _ _)
    (.cons (numbered_ofVector? _ _) (.cons (numbered_ofVector? _ _) (.cons start
    (.cons (numbered_ofVector? _ _) (.cons (numbered_ofVector? _ _) (.cons map .nil)))))))))

/-- The sections of a module hold its lists. -/
theorem ofSections?_sections (mod : Module body) (code : List CodeEntry) :
    Contents.ofSections? ((mod.candidates (code.map CodeEntry.encode)).filterMap id) = some
      (mod.contents code) := by
  have found : ∀ (pos : Nat) number candidate, Contents.sectionOrder[pos]? = some number →
      (mod.candidates (code.map CodeEntry.encode))[pos]? = some candidate →
      ((mod.candidates (code.map CodeEntry.encode)).filterMap id).find?
      (fun entry => entry.id == number) =
        candidate := by
    intro pos number candidate numberAt candidateAt
    refine find?_eq (mod.numbered_candidates _) (by decide) ?_
    exact mem_of_getElem? (getElem?_zip_eq_some.mpr ⟨numberAt, candidateAt⟩)
  generalize (mod.candidates (code.map CodeEntry.encode)).filterMap id = sections at found
  have types := Contents.entries_ofVector? id reads_funcType (found 0 1 _ rfl rfl)
  have imports := Contents.entries_ofVector? id reads_import (found 1 2 _ rfl rfl)
  have functions := Contents.entries_ofVector? Function.typeIndex
    (fun entry : Function body => reads_unsigned entry.typeIndex) (found 2 3 _ rfl rfl)
  have memories := Contents.entries_ofVector? id reads_memory (found 3 5 _ rfl rfl)
  have globals := Contents.entries_ofVector? _ reads_global (found 4 6 _ rfl rfl)
  have exports := Contents.entries_ofVector? _ mod.reads_export (found 5 7 _ rfl rfl)
  have bodies := Contents.entries_ofVector? id reads_codeEntry (found 7 10 _ rfl rfl)
  have data := Contents.entries_ofVector? id reads_dataSegment (found 8 11 _ rfl rfl)
  have start := Contents.part_of_map mod.functionIndex
    (fun function => (reads_unsigned _).exhaust) (found 6 8 _ rfl rfl)
  have custom : Contents.part sections 0 customData = some (mod.contents code).custom? := by
    have placed := found 9 0 _ rfl rfl
    rw [sourceMapSection?] at placed
    rw [contents]
    split at placed
    · rename_i embedded
      rw [if_pos embedded]
      exact Contents.part_of_map _ (fun map => exhaust_customData _ _) placed
    · rename_i separate
      rw [if_neg separate, Contents.part, placed]
  rw [map_id] at types imports memories bodies data
  rw [Contents.ofSections?, types, imports, functions, memories, globals, exports, start, bodies,
    data, custom]
  rfl

end Module

/-! ## Writing -/

theorem listSection_eq_ok {α : Type} {id what write} {entries : List α} {part} :
    listSection id what write entries = .ok part ↔ entries.length < 0x100000000 ∧
      ∃ parts, entries.mapM write = .ok parts ∧ Section.ofVector? id parts = part := by
  simp only [listSection, bind_eq_ok, Limit.check_eq_ok, exists_const, pure_eq_ok]

/-- The section of entries that are written as they are encoded. -/
theorem ofVector?_of_listSection {α : Type} {id what write} {entries : List α} {part}
    {encode : α → Bytes} (plain : ∀ entry bytes, write entry = .ok bytes → bytes = encode entry)
    (written : listSection id what write entries = .ok part) :
    part = Section.ofVector? id (entries.map encode) := by
  obtain ⟨-, parts, writes, rfl⟩ := listSection_eq_ok.mp written
  have each := (forall₂_of_mapM_ok writes).imp fun entry bytes writes => (plain _ _ writes).symm
  rw [← forall₂_map_left_iff, forall₂_eq_eq_eq] at each
  rw [each]

theorem FuncType.encode_of_write (type : FuncType) (bytes : Bytes)
    (written : type.write = .ok bytes) : bytes = type.encode := by
  simp only [write, bind_eq_ok, pure_eq_ok] at written
  obtain ⟨-, -, -, -, rfl⟩ := written
  rfl

theorem Import.encode_of_write (entry : Import) (bytes : Bytes)
    (written : entry.write = .ok bytes) : bytes = entry.encode := by
  simp only [write, bind_eq_ok, pure_eq_ok] at written
  obtain ⟨-, -, -, -, rfl⟩ := written
  rfl

theorem DataSegment.encode_of_write (segment : DataSegment) (bytes : Bytes)
    (written : segment.write = .ok bytes) : bytes = segment.encode := by
  simp only [write, bind_eq_ok, pure_eq_ok] at written
  obtain ⟨-, -, rfl⟩ := written
  rfl

namespace Module

variable {body : Type} {mod : Module body} {encodeBody : body → Except Fault Bytes}

/-- What stands in cells is written as the places of the references. -/
theorem encodeExport_of_write (written : Export.write mod.numbered entry = .ok bytes) :
    bytes = mod.encodeExport entry := by
  obtain ⟨_, -, written⟩ := bind_eq_ok.mp written
  obtain ⟨target, targetWritten, written⟩ := bind_eq_ok.mp written
  obtain rfl := pure_eq_ok.mp written
  obtain ⟨name, handle⟩ := entry
  cases handle with
  | function function =>
    obtain ⟨index, reads, rfl⟩ := bind_pure_eq_ok.mp targetWritten
    obtain ⟨-, rfl⟩ := read_function.mp reads
    rfl
  | global pos =>
    obtain ⟨index, reads, rfl⟩ := bind_pure_eq_ok.mp targetWritten
    obtain ⟨-, rfl⟩ := read_global.mp reads
    rfl
  | memory =>
    obtain ⟨index, reads, rfl⟩ := bind_pure_eq_ok.mp targetWritten
    obtain ⟨-, rfl⟩ := read_memory.mp reads
    rfl

theorem startSection_eq (written : mod.startSection mod.numbered = .ok part) :
    part = mod.start?.map fun function =>
      { id := 8, payload := Leb128.encodeUnsigned (mod.functionIndex function) } := by
  unfold startSection at written
  split at written
  · rename_i absent
    rw [absent]
    exact (Except.ok.inj written).symm
  · rename_i function mem
    obtain ⟨index, reads, rfl⟩ := bind_pure_eq_ok.mp written
    obtain ⟨-, rfl⟩ := read_function.mp reads
    rw [mem]
    rfl

/-- Sections that are written are those of the lists of the module. -/
theorem candidates_of_sections (writes : mod.sections mod.numbered encodeBody = .ok written) :
    ∃ parts, mod.functions.mapM (encodeFunction encodeBody) = .ok parts ∧
      written ++ (mod.sourceMapSection? mod.completeSourceMap?).toList =
        (mod.candidates parts).filterMap id := by
  unfold sections at writes
  obtain ⟨types, typesWritten, writes⟩ := bind_eq_ok.mp writes
  obtain ⟨imports, importsWritten, writes⟩ := bind_eq_ok.mp writes
  obtain ⟨functions, functionsWritten, writes⟩ := bind_eq_ok.mp writes
  obtain ⟨memories, memoriesWritten, writes⟩ := bind_eq_ok.mp writes
  obtain ⟨globals, globalsWritten, writes⟩ := bind_eq_ok.mp writes
  obtain ⟨exports, exportsWritten, writes⟩ := bind_eq_ok.mp writes
  obtain ⟨start, startWritten, writes⟩ := bind_eq_ok.mp writes
  obtain ⟨code, codeWritten, writes⟩ := bind_eq_ok.mp writes
  obtain ⟨data, dataWritten, writes⟩ := bind_eq_ok.mp writes
  obtain ⟨-, parts, bodies, code_eq⟩ := listSection_eq_ok.mp codeWritten
  have plain {α : Type} {encode : α → Bytes} (entry : α) (bytes : Bytes)
      (same : (.ok (encode entry) : Except Fault Bytes) = .ok bytes) : bytes = encode entry :=
    (Except.ok.inj same).symm
  refine ⟨parts, bodies, ?_⟩
  obtain rfl := ofVector?_of_listSection FuncType.encode_of_write typesWritten
  obtain rfl := ofVector?_of_listSection Import.encode_of_write importsWritten
  obtain rfl := ofVector?_of_listSection plain functionsWritten
  obtain rfl := ofVector?_of_listSection plain memoriesWritten
  obtain rfl := ofVector?_of_listSection plain globalsWritten
  obtain rfl := ofVector?_of_listSection (fun _ _ => encodeExport_of_write) exportsWritten
  obtain rfl := startSection_eq startWritten
  obtain rfl := ofVector?_of_listSection DataSegment.encode_of_write dataWritten
  have last : (mod.sourceMapSection? mod.completeSourceMap?).toList =
      [mod.sourceMapSection? mod.completeSourceMap?].filterMap id := by
    cases mod.sourceMapSection? mod.completeSourceMap? <;> rfl
  rw [← pure_eq_ok.mp writes, candidates, code_eq, last, ← filterMap_append]
  rfl

theorem parts_of_binary (written : mod.binary encodeBody = .ok bytes) :
    mod.Countable ∧ mod.completeSourceMap?.isSome = mod.sourceMap?.isSome ∧
      ∃ parts, mod.functions.mapM (encodeFunction encodeBody) = .ok parts ∧
        header ++ ((mod.candidates parts).filterMap id).flatMap Section.encode = bytes := by
  rw [binary] at written
  split at written
  · cases written
  · rename_i set cells linearized
    obtain ⟨few, rfl⟩ := countable_of_linearize linearized
    obtain ⟨map?, maps, written⟩ := bind_eq_ok.mp written
    have map_eq : mod.completeSourceMap? = map? := by
      rw [completeSourceMap?, Module.cells, linearized]
      dsimp only
      rw [maps]
      rfl
    obtain ⟨_, writes, written⟩ := bind_eq_ok.mp written
    obtain ⟨_, -, written⟩ := bind_eq_ok.mp written
    obtain rfl := pure_eq_ok.mp written
    obtain ⟨parts, bodies, all_eq⟩ := candidates_of_sections writes
    refine ⟨few, ?_, parts, bodies, by rw [← all_eq, map_eq]⟩
    rw [map_eq]
    unfold completeSourceMap at maps
    split at maps
    · rename_i absent
      rw [absent, ← Except.ok.inj maps]
    · rename_i map mem
      obtain ⟨entries, -, rfl⟩ := bind_pure_eq_ok.mp maps
      rw [mem]
      rfl

/-- All that a module refers to is in it. -/
structure Closed (mod : Module body) : Prop where
  exports : ∀ entry ∈ mod.exports, ∃ bytes, entry.target.write mod.numbered = .ok bytes
  start : ∀ function ∈ mod.start?, function ∈ mod.references
  mapped : ∀ entry ∈ mod.mapped, entry.function ∈ mod.references

/-- What a module refers to is not missing when it is written: a number is too large, or a
body cannot be encoded. -/
theorem failsOnly_binary {allowed : Fault → Prop} (few : mod.Countable) (closed : mod.Closed)
    (tooLarge : ∀ fault : Fault, fault.TooLarge → allowed fault)
    (bodies : ∀ entry ∈ mod.functions, FailsOnly allowed (encodeFunction encodeBody entry)) :
    FailsOnly allowed (mod.binary encodeBody) := by
  have check (what : String) (value : Nat) : FailsOnly allowed (Limit.check what value) :=
    (Limit.failsOnly_check what value).mono tooLarge
  have named (text : String) : FailsOnly allowed (checkName text) := check _ _
  have list {α : Type} {id what} {write : α → Except Fault Bytes} {entries : List α}
      (each : ∀ entry ∈ entries, FailsOnly allowed (write entry)) :
      FailsOnly allowed (listSection id what write entries) :=
    .bind (check _ _) fun _ => .bind (.mapM each) fun _ => .pure _
  have reads {function : FunctionRef} (mem : function ∈ mod.references) :
      FailsOnly allowed (mod.numbered.function function).read :=
    .of_ok (read_function.mpr ⟨mem, rfl⟩)
  rw [binary, linearize_eq few]
  refine .bind ?_ fun map? => .bind ?_ fun sections =>
    .bind (.forM fun _ _ => check _ _) fun _ => .pure _
  · unfold completeSourceMap
    split
    · exact .of_ok rfl
    · refine .bind (.mapM fun entry mem => ?_) fun _ => .pure _
      exact .bind (reads (closed.mapped entry mem)) fun _ => .pure _
  · refine .bind (list fun _ _ => ?types) fun _ => .bind (list fun _ _ => ?imports) fun _ =>
      .bind (list fun _ _ => .of_ok rfl) fun _ => .bind (list fun _ _ => .of_ok rfl) fun _ =>
      .bind (list fun _ _ => .of_ok rfl) fun _ => .bind (list fun entry mem => ?exports) fun _ =>
      .bind ?start fun _ => .bind (list bodies) fun _ => .bind (list fun _ _ => ?data) fun _ =>
      .pure _
    case types => exact .bind (check _ _) fun _ => .bind (check _ _) fun _ => .pure _
    case imports => exact .bind (named _) fun _ => .bind (named _) fun _ => .pure _
    case exports =>
      obtain ⟨bytes, written⟩ := closed.exports entry mem
      exact .bind (named _) fun _ => .bind (.of_ok written) fun _ => .pure _
    case start =>
      unfold startSection
      split
      · exact .of_ok rfl
      · rename_i function isStart
        exact .bind (reads (closed.start function isStart)) fun _ => .pure _
    case data => exact .bind (check _ _) fun _ => .pure _

end Module

/-! ## Whole binaries -/

theorem length_le_length_flatten {parts : List Bytes} (filled : ∀ part ∈ parts, part ≠ []) :
    parts.length ≤ parts.flatten.length := by
  induction parts with
  | nil => exact Nat.le_refl 0
  | cons part parts ih =>
    rw [forall_mem_cons] at filled
    rw [flatten_cons, length_append, length_cons, Nat.add_comm]
    exact Nat.add_le_add (length_pos_of_ne_nil filled.1) (ih filled.2)

/-- Sections that fill the bytes after the fixed start are read. -/
theorem Contents.read?_header {sections : List Section}
    (ordered : (sections.map Section.id).Sublist sectionOrder) :
    read? (header ++ sections.flatMap Section.encode) = ofSections? sections := by
  have filled : ∀ part ∈ sections.map Section.encode, part ≠ [] := by
    intro part mem
    obtain ⟨entry, -, rfl⟩ := mem_map.mp mem
    exact cons_ne_nil _ _
  have each := forall₂_reads_map id reads_section sections
  have read := untilEnd_flatten each filled (length_le_length_flatten filled)
  rw [map_id, ← flatMap_def] at read
  rw [read?, isPrefixOf_iff_prefix.mpr (prefix_append _ _), drop_left]
  dsimp only
  rw [read]
  show (guard (_ = true) : Option Unit).bind (fun _ => ofSections? sections) = _
  rw [isSublist_iff_sublist.mpr ordered]
  rfl

namespace CodeEntry

variable {refs : Refs}

/-- An entry holds the body of a function, whose numbers are looked up. -/
def HoldsBody (resolver : Resolver refs) (function : Function (FunctionBody refs))
    (entry : CodeEntry) : Prop :=
  ∃ content, function.body? = some content ∧ entry.locals = content.locals ∧
    encodeCode resolver content.code = .ok entry.code

theorem exists_of_encode {data : FunctionBody refs}
    (written : data.encode resolver = .ok bytes) :
    ∃ entry : CodeEntry, (entry.locals = data.locals ∧
      encodeCode resolver data.code = .ok entry.code) ∧
        entry.encode = Leb128.lengthPrefixed bytes := by
  obtain ⟨_, -, written⟩ := bind_eq_ok.mp written
  split at written
  · rename_i code code_eq
    exact ⟨⟨data.locals, code⟩, ⟨rfl, code_eq⟩, pure_eq_ok.mp written ▸ rfl⟩
  · cases written

/-- Functions that are encoded give entries, if their bodies do. -/
theorem exists_of_mapM_encodeFunction {body : Type} {encodeBody : body → Except Fault Bytes}
    {holds : body → CodeEntry → Prop} (encodes : ∀ data bytes, encodeBody data = .ok bytes →
      ∃ entry : CodeEntry, holds data entry ∧ entry.encode = Leb128.lengthPrefixed bytes)
    {functions parts} (written : functions.mapM (Module.encodeFunction encodeBody) = .ok parts) :
    ∃ code : List CodeEntry, parts = code.map encode ∧ List.Forall₂
        (fun function entry => ∃ data, function.body? = some data ∧ holds data entry)
        functions code := by
  have each := forall₂_of_mapM_ok written
  clear written
  induction each with
  | nil => exact ⟨[], rfl, .nil⟩
  | cons first _ ih =>
    obtain ⟨code, rfl, all⟩ := ih
    rw [Module.encodeFunction] at first
    split at first
    · cases first
    · rename_i data body_eq
      obtain ⟨bytes, encoded, first⟩ := bind_eq_ok.mp first
      obtain ⟨_, -, same⟩ := bind_eq_ok.mp first
      obtain ⟨entry, holdsEntry, encode_eq⟩ := encodes data bytes encoded
      refine ⟨entry :: code, ?_, .cons ⟨data, body_eq, holdsEntry⟩ all⟩
      rw [map_cons, encode_eq]
      exact congrArg (· :: _) (pure_eq_ok.mp same).symm

end CodeEntry

namespace Module

variable {refs : Refs}

/-- The sections that have contents. -/
def hasContents (mod : Module (FunctionBody refs)) : List Bool :=
  [!mod.types.isEmpty, !mod.imports.isEmpty, !mod.functions.isEmpty, mod.memory?.isSome,
    !mod.globals.isEmpty, !mod.exports.isEmpty, mod.start?.isSome, !mod.functions.isEmpty,
    !mod.data.isEmpty, mod.embedSourceMap && mod.sourceMap?.isSome]

theorem isSome_candidates (mod : Module (FunctionBody refs)) (code : List CodeEntry)
    (length_eq : mod.functions.length = code.length)
    (map_eq : mod.completeSourceMap?.isSome = mod.sourceMap?.isSome) :
    (mod.candidates (code.map CodeEntry.encode)).map Option.isSome = mod.hasContents := by
  have sourceMap : (mod.sourceMapSection? mod.completeSourceMap?).isSome =
      (mod.embedSourceMap && mod.sourceMap?.isSome) := by
    rw [sourceMapSection?, ← map_eq]
    cases mod.embedSourceMap <;> simp
  have bodies : code.isEmpty = mod.functions.isEmpty := by
    rw [Bool.eq_iff_iff, isEmpty_iff_length_eq_zero, isEmpty_iff_length_eq_zero, length_eq]
  have memory : mod.memory?.toList.isEmpty = mod.memory?.isNone := by
    cases mod.memory? <;> rfl
  simp [candidates, hasContents, isSome_ofVector?, sourceMap, bodies, memory]

theorem read?_sections {body : Type} (mod : Module body) (code : List CodeEntry) :
    Contents.read? (header ++ ((mod.candidates (code.map CodeEntry.encode)).filterMap id).flatMap
      Section.encode) =
      some (mod.contents code) := by
  rw [Contents.read?_header (map_id_sublist (mod.numbered_candidates _))]
  exact mod.ofSections?_sections code

/-- A binary is the fixed start followed by the sections that have contents, in their
order, each after its number and its length. It is read back as the lists of the module. -/
theorem read?_binary {mod : Module (FunctionBody refs)} {resolver bytes}
    (written : mod.binary (FunctionBody.encode resolver) = .ok bytes) :
    ∃ (sections : List Section) (code : List CodeEntry),
      bytes = header ++ sections.flatMap Section.encode ∧
      sections.map Section.id = (Contents.sectionOrder.zip mod.hasContents).filterMap
        (fun place => if place.2 then some place.1 else none) ∧
      List.Forall₂ (fun function entry => CodeEntry.HoldsBody resolver function entry)
        mod.functions code ∧
      Contents.read? bytes = some (mod.contents code) := by
  obtain ⟨-, map_eq, parts, bodies, rfl⟩ := parts_of_binary written
  obtain ⟨code, rfl, holds⟩ := CodeEntry.exists_of_mapM_encodeFunction
    (fun _ _ => CodeEntry.exists_of_encode) bodies
  refine ⟨_, code, rfl, ?_, holds, mod.read?_sections code⟩
  rw [map_id_eq (mod.numbered_candidates _), isSome_candidates mod code holds.length_eq
    map_eq]

end Module
end StructWasm.Wasm
