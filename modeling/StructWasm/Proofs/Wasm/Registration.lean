import StructWasm.Proofs.Wasm.Contents
import StructWasm.Proofs.Wasm.SignatureTable

/-!
# Modules built call by call

Whatever the order of the calls that build a module, what they register of one kind stands
in the order of these calls. So the calls of different kinds may be interleaved in any way,
and the binary is the same and is read back as what was registered.
-/

namespace StructWasm.Wasm

open List

/-- A call that builds up a module. -/
inductive Registration (body : Type) where
  | registerType (type : FuncType)
  | importFunction (moduleName name : String) (type : FuncType)
  | createFunction (name : String) (type : FuncType)
  | defineFunction (function : FunctionRef) (content : body)
  | addMemory (minimum : Nat) (maximum : Option Nat)
  | addGlobal (type : ValType) (isMutable : Bool) (initial : Constant)
  | addExport (name : String) (target : ExportTarget)
  | setStart (function : FunctionRef)
  | addData (offset : UInt32) (bytes : Bytes)
  | attachSourceMap (map : SourceMap)
  | mapFunction (mapped : MappedFunction)

/-- What calls are about. Imports and functions register their signatures. -/
inductive RegistrationKind where
  | signature
  | body
  | memory
  | global
  | exported
  | start
  | data
  | sourceMap
  | mapped
  deriving DecidableEq, Repr

namespace Registration

variable {body : Type}

def kind : Registration body → RegistrationKind
  | registerType _ => .signature
  | importFunction _ _ _ => .signature
  | createFunction _ _ => .signature
  | defineFunction _ _ => .body
  | addMemory _ _ => .memory
  | addGlobal _ _ _ => .global
  | addExport _ _ => .exported
  | setStart _ => .start
  | addData _ _ => .data
  | attachSourceMap _ => .sourceMap
  | mapFunction _ => .mapped

/-! ## What a call registers -/

def signature? : Registration body → Option FuncType
  | registerType type => some type
  | importFunction _ _ type => some type
  | createFunction _ type => some type
  | _ => none

def imported? : Registration body → Option (String × String × FuncType)
  | importFunction moduleName name type => some (moduleName, name, type)
  | _ => none

/-- The function whose body is given later. -/
def created? : Registration body → Option (String × FuncType)
  | createFunction name type => some (name, type)
  | _ => none

/-- The function that gets a body. -/
def definition? : Registration body → Option (FunctionRef × body)
  | defineFunction function content => some (function, content)
  | _ => none

/-- The memory, if its limits are in order. -/
def memory? : Registration body → Option Memory
  | addMemory minimum maximum =>
    if maximum.all (minimum ≤ ·) then some { minimum, maximum } else none
  | _ => none

/-- The global, if its value is of its type. -/
def global? : Registration body → Option Global
  | addGlobal type isMutable initial =>
    if initial.type = type then some { isMutable, initial } else none
  | _ => none

def exported? : Registration body → Option Export
  | addExport name target => some { name, target }
  | _ => none

/-- The function that runs at the start. -/
def start? : Registration body → Option FunctionRef
  | setStart function => some function
  | _ => none

/-- The bytes that are put into memory. -/
def data? : Registration body → Option DataSegment
  | addData offset bytes => some { offset, bytes }
  | _ => none

def sourceMap? : Registration body → Option SourceMap
  | attachSourceMap map => some map
  | _ => none

/-- The function that the source map lists. -/
def mapped? : Registration body → Option MappedFunction
  | mapFunction mapped => some mapped
  | _ => none

/-- Functions get bodies only after they were created. -/
def Timely (calls : List (Registration body)) : Prop :=
  ∀ (index : Nat) pos content,
    calls[index]? = some (defineFunction (.defined pos) content) →
    pos < ((calls.take index).filterMap created?).length

theorem Timely.of_append {calls more : List (Registration body)}
    (timely : Timely (calls ++ more)) : Timely calls := by
  intro index pos data found
  have inside := (List.getElem?_eq_some_iff.mp found).1
  have early := timely index pos data (by rw [getElem?_append_left inside, found])
  rwa [take_append_of_le_length (Nat.le_of_lt inside)] at early

end Registration

/-- What calls register, kind by kind and in their order. -/
structure Registered (body : Type) where
  signatures : List FuncType
  imports : List (String × String × FuncType)
  created : List (String × FuncType)
  definitions : List (FunctionRef × body)
  memories : List Memory
  globals : List Global
  exports : List Export
  starts : List FunctionRef
  data : List DataSegment
  sourceMaps : List SourceMap
  mapped : List MappedFunction

namespace Registered

variable {body : Type}

def ofCalls (calls : List (Registration body)) : Registered body where
  signatures := calls.filterMap Registration.signature?
  imports := calls.filterMap Registration.imported?
  created := calls.filterMap Registration.created?
  definitions := calls.filterMap Registration.definition?
  memories := calls.filterMap Registration.memory?
  globals := calls.filterMap Registration.global?
  exports := calls.filterMap Registration.exported?
  starts := calls.filterMap Registration.start?
  data := calls.filterMap Registration.data?
  sourceMaps := calls.filterMap Registration.sourceMap?
  mapped := calls.filterMap Registration.mapped?

/-- The signatures, each at its first place. -/
def types (added : Registered body) : List FuncType :=
  added.signatures.eraseDups

/-- The module of what was registered. Of equal signatures, of bodies of one function, of
exports under one name and of memories the first counts; of start functions and source
maps the last. -/
def toModule (added : Registered body) (embedSourceMap : Bool) : Module body where
  toSignatureTable := .ofTypes added.types
  imports := added.imports.map fun (moduleName, name, type) =>
    { moduleName, name, typeIndex := added.types.idxOf type }
  functions := added.created.mapIdx fun pos (name, type) =>
    { name, typeIndex := added.types.idxOf type
      body? := added.definitions.lookup (.defined pos) }
  memory? := added.memories.head?
  globals := added.globals
  exports := added.exports.eraseDupsBy fun later earlier => earlier.name == later.name
  start? := added.starts.getLast?
  data := added.data
  sourceMap? := added.sourceMaps.getLast?
  mapped := added.mapped
  embedSourceMap := embedSourceMap

end Registered

namespace Module

variable {body : Type}

/-- The module after a call. A call that is refused leaves it as it is. -/
def register (mod : Module body) : Registration body → Module body
  | .registerType type => (mod.registerType type).1
  | .importFunction moduleName name type => (mod.importFunction moduleName name type).1
  | .createFunction name type => (mod.createFunction name type).1
  | .defineFunction function content => (mod.defineFunction function content).toOption.getD mod
  | .addMemory minimum maximum => (mod.addMemory minimum maximum).toOption.getD mod
  | .addGlobal type isMutable initial =>
    ((mod.addGlobal type isMutable initial).toOption.map Prod.fst).getD mod
  | .addExport name target => (mod.addExport name target).toOption.getD mod
  | .setStart function => mod.setStart function
  | .addData offset bytes => mod.addData offset bytes
  | .attachSourceMap map => mod.attachSourceMap map
  | .mapFunction mapped => mod.mapFunction mapped

/-- The module that calls build. -/
def build (embedSourceMap : Bool) (calls : List (Registration body)) : Module body :=
  calls.foldl register (.empty embedSourceMap)

end Module

/-! ## First occurrences -/

theorem eraseDupsBy_loop_concat {α : Type} (same : α → α → Bool) (entries : List α) (entry : α)
    (kept : List α) : List.eraseDupsBy.loop same (entries ++ [entry]) kept =
      if (List.eraseDupsBy.loop same entries kept).any (same entry) then
        List.eraseDupsBy.loop same entries kept
      else
        List.eraseDupsBy.loop same entries kept ++ [entry] := by
  induction entries generalizing kept with
  | nil =>
    simp only [nil_append, List.eraseDupsBy.loop, any_reverse]
    split <;> simp_all
  | cons first entries ih =>
    rw [cons_append, List.eraseDupsBy.loop, List.eraseDupsBy.loop]
    split
    · exact ih kept
    · exact ih (first :: kept)

theorem eraseDupsBy_concat {α : Type} (same : α → α → Bool) (entries : List α) (entry : α) :
    (entries ++ [entry]).eraseDupsBy same = if (entries.eraseDupsBy same).any (same entry) then
        entries.eraseDupsBy same
      else
        entries.eraseDupsBy same ++ [entry] :=
  eraseDupsBy_loop_concat same entries entry []

theorem eraseDups_concat (types : List FuncType) (type : FuncType) : (types ++ [type]).eraseDups =
      if type ∈ types then types.eraseDups else types.eraseDups ++ [type] := by
  rw [List.eraseDups, eraseDupsBy_concat]
  simp [any_eq_true, ← mem_eraseDups (l := types), List.eraseDups]

/-- A function with a body, if it has none yet. -/
def Function.withBody {body : Type} (content : body) (entry : Function body) : Function body :=
  { entry with body? := entry.body?.or (some content) }

theorem idxOf_eraseDups_concat (known : type ∈ types) (other : FuncType) :
    (types ++ [other]).eraseDups.idxOf type = types.eraseDups.idxOf type := by
  rw [eraseDups_concat]
  split
  · rfl
  · exact idxOf_append_of_mem (mem_eraseDups.mpr known)

namespace Module

variable {body : Type}

/-- A signature is added if it is new, and its index is that of its first occurrence. -/
theorem registerType_eq {mod : Module body} {types : List FuncType}
    (types_eq : mod.types = types.eraseDups) (type : FuncType) : mod.registerType type =
      ({ mod with toSignatureTable := .ofTypes (types ++ [type]).eraseDups },
        (types ++ [type]).eraseDups.idxOf type) := by
  rw [registerType, mod.lookup_positions, eraseDups_concat, types_eq]
  by_cases known : type ∈ types
  · have listed : type ∈ types.eraseDups := mem_eraseDups.mpr known
    have found : types.eraseDups.idxOf? type = some (types.eraseDups.idxOf type) := by
      refine idxOf?_eq_some_iff.mpr
        ⟨idxOf_lt_length_of_mem listed, getElem_idxOf _, fun pos before same => ?_⟩
      exact beq_eq_false_iff_ne.mp (not_of_lt_findIdx before) same
    rw [if_pos known, found, ← types_eq, ← mod.eq_ofTypes]
  · have absent : type ∉ types.eraseDups := fun listed => known (mem_eraseDups.mp listed)
    have added : mod.add type = .ofTypes (types.eraseDups ++ [type]) := by
      rw [← types_eq]
      exact (mod.add type).eq_ofTypes
    rw [if_neg known, idxOf?_eq_none_iff.mpr absent, idxOf_append, if_neg absent, added]
    simp

theorem mapIdx_withBody_eq_self {functions : List (Function body)} {function : FunctionRef}
    (complete : ∀ pos entry, functions[pos]? = some entry → function = .defined pos →
      entry.body?.isSome = true) (data : body) :
    (functions.mapIdx fun pos entry =>
      if function = .defined pos then entry.withBody data else entry) = functions := by
  refine ext_getElem? fun pos => ?_
  rw [getElem?_mapIdx]
  cases found : functions[pos]? with
  | none => rfl
  | some entry =>
    rw [Option.map_some]
    split
    · rename_i here
      obtain ⟨first, body_eq⟩ := Option.isSome_iff_exists.mp (complete pos entry found here)
      rw [Function.withBody, body_eq, Option.some_or, ← body_eq]
    · rfl

/-- A function keeps its first body. -/
theorem register_define (mod : Module body) (function : FunctionRef) (data : body) :
    mod.register (.defineFunction function data) =
      { mod with
        functions := mod.functions.mapIdx fun pos entry =>
          if function = .defined pos then entry.withBody data else entry } := by
  rw [register]
  cases function with
  | imported pos =>
    rw [mapIdx_withBody_eq_self (fun _ _ _ impossible => by cases impossible)]
    rfl
  | defined pos =>
    rw [defineFunction]
    cases found : mod.functions[pos]? with
    | none =>
      rw [mapIdx_withBody_eq_self fun other entry mem here => by
        cases here
        cases found.symm.trans mem]
      rfl
    | some entry =>
      dsimp only
      split
      · rename_i complete
        rw [mapIdx_withBody_eq_self fun other entryToo mem here => by
          cases here
          cases found.symm.trans mem
          exact complete]
        rfl
      · rename_i incomplete
        have functions_eq : mod.functions.set pos { entry with body? := some data } =
            mod.functions.mapIdx fun other entry =>
              if FunctionRef.defined pos = .defined other then
                entry.withBody data
              else
                entry := by
          refine ext_getElem? fun other => ?_
          rw [getElem?_mapIdx, getElem?_set]
          by_cases here : pos = other
          · subst here
            have none_eq : entry.body? = none := by simpa using incomplete
            rw [if_pos rfl, if_pos (List.getElem?_eq_some_iff.mp found).1, found,
              Option.map_some, if_pos rfl, Function.withBody, none_eq, Option.none_or]
          · simp [here]
        show ({ mod with functions := _ } : Module body) = _
        rw [functions_eq]

theorem register_memory (mod : Module body) (minimum : Nat) (maximum : Option Nat) :
    mod.register (.addMemory minimum maximum) =
      { mod with
        memory? := mod.memory?.or
          (if maximum.all (minimum ≤ ·) then some { minimum, maximum } else none) } := by
  obtain ⟨types, imports, functions, memory, globals, exports, start, data, sourceMap,
    mapped, embed⟩ := mod
  cases memory with
  | some memory => rfl
  | none =>
    cases maximum with
    | none => rfl
    | some limit =>
      rw [register, addMemory.eq_def]
      by_cases small : limit < minimum
      · simp [small, Except.toOption]
      · simp [small, Except.toOption]

end Module

/-! ## One more call -/

namespace Registered

variable {body : Type} {added : Registered body} (embedSourceMap : Bool)

/-- What was registered, with what one more call registers. -/
def add (added : Registered body) (call : Registration body) : Registered body where
  signatures := added.signatures ++ call.signature?.toList
  imports := added.imports ++ call.imported?.toList
  created := added.created ++ call.created?.toList
  definitions := added.definitions ++ call.definition?.toList
  memories := added.memories ++ call.memory?.toList
  globals := added.globals ++ call.global?.toList
  exports := added.exports ++ call.exported?.toList
  starts := added.starts ++ call.start?.toList
  data := added.data ++ call.data?.toList
  sourceMaps := added.sourceMaps ++ call.sourceMap?.toList
  mapped := added.mapped ++ call.mapped?.toList

theorem filterMap_concat {α β : Type} (view : α → Option β) (entries : List α) (entry : α) :
    (entries ++ [entry]).filterMap view = entries.filterMap view ++ (view entry).toList := by
  rw [filterMap_append]
  cases found : view entry <;> simp [found]

theorem ofCalls_concat (calls : List (Registration body)) (call : Registration body) :
    ofCalls (calls ++ [call]) = (ofCalls calls).add call := by
  simp only [ofCalls, filterMap_concat, add]

/-- Functions have signatures that are registered, and only functions have bodies. -/
structure Consistent (added : Registered body) : Prop where
  imports : ∀ entry ∈ added.imports, entry.2.2 ∈ added.signatures
  created : ∀ entry ∈ added.created, entry.2 ∈ added.signatures
  definitions : ∀ pos, added.created.length ≤ pos →
    added.definitions.lookup (.defined pos) = none

/-- A new signature changes no index. -/
theorem toModule_signature (consistent : added.Consistent) (type : FuncType) :
    toModule { added with signatures := added.signatures ++ [type] } embedSourceMap =
      { added.toModule embedSourceMap with
        toSignatureTable := .ofTypes (added.signatures ++ [type]).eraseDups } := by
  have imports : ∀ entry ∈ added.imports, (added.signatures ++ [type]).eraseDups.idxOf entry.2.2 =
        added.types.idxOf entry.2.2 := fun entry mem =>
    idxOf_eraseDups_concat (consistent.imports entry mem) type
  have created : ∀ entry ∈ added.created,
      (added.signatures ++ [type]).eraseDups.idxOf entry.2 = added.types.idxOf entry.2 :=
    fun entry mem => idxOf_eraseDups_concat (consistent.created entry mem) type
  have importsSame := map_congr_left fun (entry : String × String × FuncType)
      (mem : entry ∈ added.imports) => congrArg
    (Import.mk entry.1 entry.2.1) (imports entry mem)
  simp only [toModule, types]
  rw [Module.mk.injEq]
  refine ⟨rfl, importsSame, ?_, rfl, rfl, rfl, rfl, rfl, rfl, rfl, rfl⟩
  refine ext_getElem? fun pos => ?_
  rw [getElem?_mapIdx, getElem?_mapIdx]
  cases found : added.created[pos]? with
  | none => rfl
  | some entry =>
    have index_eq := created entry (mem_of_getElem? found)
    simp only [Option.map_some, index_eq, types]

theorem toModule_import (added : Registered body) (moduleName name : String) (type : FuncType) :
    toModule { added with imports := added.imports ++ [(moduleName, name, type)] } embedSourceMap =
      { added.toModule embedSourceMap with
        imports := (added.toModule embedSourceMap).imports ++
          [{ moduleName, name, typeIndex := added.types.idxOf type }] } := by
  simp only [toModule, types, map_append, map_cons, map_nil]

theorem toModule_create (added : Registered body) (name : String) (type : FuncType)
    (undefinedYet : added.definitions.lookup (.defined added.created.length) = none) :
    toModule { added with created := added.created ++ [(name, type)] } embedSourceMap =
      { added.toModule embedSourceMap with
        functions := (added.toModule embedSourceMap).functions ++
          [{ name, typeIndex := added.types.idxOf type, body? := none }] } := by
  simp only [toModule, types, mapIdx_concat, undefinedYet]

theorem toModule_define (function : FunctionRef) (data : body) :
    toModule { added with definitions := added.definitions ++ [(function, data)] }
        embedSourceMap =
      (added.toModule embedSourceMap).register (.defineFunction function data) := by
  rw [Module.register_define]
  simp only [toModule, types, mapIdx_mapIdx, lookup_append, Module.mk.injEq, true_and, and_true]
  refine congrArg (List.mapIdx · added.created) ?_
  funext pos entry
  by_cases here : function = .defined pos
  · subst here
    simp [Function.withBody]
  · have differs : (FunctionRef.defined pos == function) = false := by
      simpa using Ne.symm here
    simp [List.lookup_cons, differs, here]

theorem toModule_export (name : String) (target : ExportTarget) :
    toModule { added with exports := added.exports ++ [{ name, target }] } embedSourceMap =
      (added.toModule embedSourceMap).register (.addExport name target) := by
  have exports : ∀ exports, toModule { added with exports } embedSourceMap =
      { added.toModule embedSourceMap with
        exports := exports.eraseDupsBy fun later earlier => earlier.name == later.name } :=
    fun _ => rfl
  have kept : (added.toModule embedSourceMap).hasExport name =
      (added.exports.eraseDupsBy fun later earlier => earlier.name == later.name).any
        fun earlier => earlier.name == name := rfl
  rw [exports, eraseDupsBy_concat, Module.register, Module.addExport, kept]
  split
  · rfl
  · rfl

open Registration in
/-- One more call does to the module what the call says. -/
theorem toModule_add (consistent : added.Consistent) (call : Registration body) :
    (added.add call).toModule embedSourceMap = (added.toModule embedSourceMap).register call := by
  unfold add
  cases call <;> simp only [signature?, imported?, created?, definition?, memory?, global?,
    exported?, start?, data?, sourceMap?, mapped?, Option.toList_some, Option.toList_none,
    append_nil]
  case registerType type =>
    rw [toModule_signature embedSourceMap consistent, Module.register, Module.registerType_eq rfl]
  case importFunction moduleName name type =>
    have registers := toModule_signature embedSourceMap consistent type
    have imports := toModule_import embedSourceMap
      { added with signatures := added.signatures ++ [type] } moduleName name type
    rw [Module.register, Module.importFunction, Module.registerType_eq rfl]
    rw [registers] at imports
    exact imports
  case createFunction name type =>
    have registers := toModule_signature embedSourceMap consistent type
    have creates := toModule_create embedSourceMap
      { added with signatures := added.signatures ++ [type] } name type
      (consistent.definitions _ (Nat.le_refl _))
    rw [Module.register, Module.createFunction, Module.registerType_eq rfl]
    rw [registers] at creates
    exact creates
  case defineFunction function content => exact toModule_define embedSourceMap function content
  case addMemory minimum maximum =>
    rw [Module.register_memory]
    simp only [toModule, types, head?_append, Module.mk.injEq, true_and, and_true]
    split <;> rfl
  case addGlobal type isMutable initial =>
    rw [Module.register, Module.addGlobal]
    split
    · rfl
    · rw [Option.toList_none, append_nil]
      rfl
  case addExport name target => exact toModule_export embedSourceMap name target
  case setStart function => simp [toModule, types, Module.register, Module.setStart]
  case attachSourceMap map => simp [toModule, types, Module.register, Module.attachSourceMap]
  all_goals rfl

/-! ## All calls -/

/-- Functions that get bodies only after they were created. -/
theorem consistent_ofCalls {calls : List (Registration body)} (timely : Registration.Timely calls) :
    (ofCalls calls).Consistent where
  imports := fun entry mem => by
    obtain ⟨call, listed, found⟩ := mem_filterMap.mp mem
    refine mem_filterMap.mpr ⟨call, listed, ?_⟩
    cases call <;> cases found
    rfl
  created := fun entry mem => by
    obtain ⟨call, listed, found⟩ := mem_filterMap.mp mem
    refine mem_filterMap.mpr ⟨call, listed, ?_⟩
    cases call <;> cases found
    rfl
  definitions := fun pos beyond => by
    rw [lookup_eq_none_iff]
    intro definition mem
    obtain ⟨call, listed, found⟩ := mem_filterMap.mp mem
    cases call with
    | defineFunction function data =>
      cases found
      rw [bne_iff_ne]
      rintro rfl
      obtain ⟨index, present⟩ := getElem?_of_mem listed
      have early := timely index pos data present
      have fewer := ((take_sublist index calls).filterMap Registration.created?).length_le
      exact absurd early (Nat.not_lt_of_le (Nat.le_trans fewer beyond))
    | _ => cases found

theorem build_eq {calls : List (Registration body)} (timely : Registration.Timely calls) :
    Module.build embedSourceMap calls = (ofCalls calls).toModule embedSourceMap := by
  induction calls using List.reverseRecOn with
  | nil => rfl
  | append_singleton calls call ih =>
    have early := timely.of_append
    rw [Module.build, foldl_append, foldl_cons, foldl_nil, ofCalls_concat,
      toModule_add embedSourceMap (consistent_ofCalls early), ← ih early]
    rfl

theorem filterMap_of_kind {α : Type} {view : Registration body → Option α} {kind}
    (ofKind : ∀ call, call.kind ≠ kind → view call = none) (calls : List (Registration body)) :
    (calls.filter fun call => call.kind = kind).filterMap view = calls.filterMap view := by
  rw [filterMap_filter]
  refine filterMap_congr fun call _ => ?_
  by_cases here : call.kind = kind
  · simp [here]
  · simp [here, ofKind call here]

/-- What is registered depends on the calls of each kind only. -/
theorem ofCalls_congr {calls other : List (Registration body)}
    (same : ∀ kind, (other.filter fun call => call.kind = kind) =
      calls.filter fun call => call.kind = kind) : ofCalls other = ofCalls calls := by
  have view : ∀ {α : Type} (view : Registration body → Option α) (kind : RegistrationKind),
      (∀ call, call.kind ≠ kind → view call = none) →
      other.filterMap view = calls.filterMap view := by
    intro α view kind ofKind
    rw [← filterMap_of_kind ofKind, same, filterMap_of_kind ofKind]
  rw [ofCalls, ofCalls, view Registration.signature? .signature, view Registration.imported?
    .signature, view Registration.created? .signature, view Registration.definition? .body, view
    Registration.memory? .memory, view Registration.global? .global, view Registration.exported?
    .exported, view Registration.start? .start, view Registration.data? .data, view
    Registration.sourceMap? .sourceMap, view Registration.mapped? .mapped]
  all_goals
    intro call differs
    cases call <;> first | rfl | exact absurd rfl differs

end Registered

/-- The binary of a module that calls build is the fixed start followed by the sections that
have contents, in their order, each after its number and the length of its contents. It is
read back as what the calls registered, kind by kind in their order, and the same binary is
written for other calls if those of each kind are the same in the same order. -/
theorem read?_binary_of_build
    {refs : Refs}
    (resolver : Resolver refs)
    (embedSourceMap : Bool)
    (calls : List (Registration (FunctionBody refs)))
    (timely : Registration.Timely calls)
    (bytes : Bytes)
    (written : (Module.build embedSourceMap calls).binary (FunctionBody.encode resolver) =
      .ok bytes) :
    let mod := (Registered.ofCalls calls).toModule embedSourceMap
    (∃ (sections : List Section) (code : List CodeEntry),
      bytes = header ++ sections.flatMap (fun part =>
        part.id :: (Leb128.encodeUnsigned part.payload.length ++ part.payload)) ∧
      sections.map Section.id = (Contents.sectionOrder.zip mod.hasContents).filterMap
        (fun place => if place.2 then some place.1 else none) ∧
      List.Forall₂ (fun function entry => CodeEntry.HoldsBody resolver function entry)
        mod.functions code ∧
      Contents.read? bytes = some (mod.contents code)) ∧
    ∀ other, Registration.Timely other →
      (∀ kind, (other.filter fun call => call.kind = kind) =
        calls.filter fun call => call.kind = kind) →
      (Module.build embedSourceMap other).binary (FunctionBody.encode resolver) = .ok bytes := by
  have built := Registered.build_eq embedSourceMap timely
  rw [built] at written
  refine ⟨Module.read?_binary written, fun other otherTimely same => ?_⟩
  rw [Registered.build_eq embedSourceMap otherTimely, Registered.ofCalls_congr same]
  exact written

/-- A function is created before the function that it imports, and defined between a memory
and its export. -/
theorem read?_binary_of_small_build :
    let refs : Refs := { localVar := Nat, globalVar := Nat, function := Nat, base := Nat }
    let resolver : Resolver refs :=
      { localIndex := .ok, globalIndex := .ok, functionIndex := .ok, base := .ok }
    let calls : List (Registration (FunctionBody refs)) :=
      [.createFunction "double" ⟨[.i32], [.i32]⟩, .importFunction "env" "log" ⟨[.i32], []⟩,
        .addMemory 1 none,
        .defineFunction (.defined 0) ⟨[(1, .i64)], [.localGet 0, .localGet 0, .numeric .i32Add]⟩,
        .addExport "double" (.function (.defined 0)), .addData 3000000000 [1, 2, 3],
        .addGlobal .i32 true (.i32 (-5))]
    Registration.Timely calls ∧ ∃ bytes code,
      (Module.build false calls).binary (FunctionBody.encode resolver) = .ok bytes ∧
      Contents.read? bytes =
        some (((Registered.ofCalls calls).toModule false).contents code) := by
  intro refs resolver calls
  have timely : Registration.Timely calls := by
    intro index position content found
    match index with
    | 3 =>
        cases found
        decide
    | 0 | 1 | 2 | 4 | 5 | 6 => cases found
    | _ + 7 => cases found
  have isOk : ((Module.build false calls).binary (FunctionBody.encode resolver)).isOk = true := by
    decide +kernel
  cases written : (Module.build false calls).binary (FunctionBody.encode resolver) with
  | error cause =>
      rw [written] at isOk
      cases isOk
  | ok bytes =>
      obtain ⟨⟨_, code, -, -, -, read⟩, -⟩ :=
        read?_binary_of_build resolver false calls timely bytes written
      exact ⟨timely, bytes, code, rfl, read⟩

end StructWasm.Wasm
