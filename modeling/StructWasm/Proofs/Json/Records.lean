import StructWasm.Config
import StructWasm.Diagnostic.Batch
import StructWasm.Proofs.Json.Reading
import StructWasm.SourceMap

/-!
# Round trips of records

Configurations, source maps and batches of diagnostics are read back from their JSON
texts. A field that is left out when it is written takes the value it had when it is
read.
-/

namespace StructWasm

open List StructWasm.Span

namespace Json

/-! ## Fields -/

theorem member?_record (name : String) (members : List (String × Json)) :
    member? name (members.map fun mem => (some mem.1, mem.2)) = members.lookup name := by
  induction members with
  | nil => rfl
  | cons mem members ih =>
    unfold member? at ih ⊢
    rw [map_cons, find?_cons, List.lookup_cons]
    by_cases same : mem.1 = name
    · simp [same]
    · have here : (some mem.1 == some name) = false := by simpa using same
      have there : (name == mem.1) = false := by simpa using Ne.symm same
      simp only [here, there]
      exact ih

theorem memberCount_record (name : String) (members : List (String × Json)) :
    memberCount name (members.map fun mem => (some mem.1, mem.2)) =
      (members.map Prod.fst).count name := by
  rw [memberCount, countP_map, List.count, countP_map]
  exact countP_congr fun mem _ => by simp

theorem lookup_cons {α : Type} (name key : String) (value : α) (members : List (String × α)) :
    ((key, value) :: members).lookup name =
      if name = key then some value else members.lookup name := by
  rw [List.lookup_cons]
  by_cases same : name = key
  · simp [same]
  · have ne : (name == key) = false := by simpa using same
    simp only [ne, if_neg same]

theorem namedFields_record {members : List (String × Json)}
    (distinct : (members.map Prod.fst).Nodup) (names : List String) :
    namedFields names (members.map fun mem => (some mem.1, mem.2)) =
      some (names.map fun name => (name, members.lookup name)) := by
  rw [namedFields, if_pos]
  · simp only [member?_record]
  · simp [memberCount_record, nodup_iff_count_le_one.mp distinct]

theorem recordFields_record {members} (distinct : (members.map Prod.fst).Nodup)
    (names : List String) : recordFields names (.record members) =
      some (names.map fun name => (name, members.lookup name)) :=
  namedFields_record distinct names

/-! ## Primitives -/

theorem natBelow?_nat (small : value < bound) : (nat value).natBelow? bound = some value := by
  simp [nat, natBelow?, Numeral.natural?_ofNat, small]

@[simp] theorem uint16?_nat (value : UInt16) : (nat value.toNat).uint16? = some value := by
  simp [uint16?, natBelow?_nat value.toNat_lt]

@[simp] theorem uint32?_nat (value : UInt32) : (nat value.toNat).uint32? = some value := by
  simp [uint32?, natBelow?_nat value.toNat_lt]

@[simp] theorem option?_null {α : Type} (read : Json → Option α) :
    null.option? read = some none := rfl

@[simp] theorem option?_nat (read : Json → Option UInt32) (value : Nat) :
    (nat value).option? read = (read (.nat value)).map some := rfl

@[simp] theorem option?_text (read : Json → Option String) (data : String) :
    (text data).option? read = (read (.text data)).map some := rfl

@[simp] theorem bool?_bool (value : Bool) : (bool value).bool? = some value := rfl

@[simp] theorem text?_text (data : String) : (text data).text? = some data := rfl

@[simp] theorem choice?_text {α : Type} (choices : List (String × α)) (name : String) :
    (text name).choice? choices = choices.lookup name := rfl

theorem list?_array {α : Type} {write : α → Json} {read : Json → Option α} {items}
    (reads : ∀ item ∈ items, read (write item) = some item) :
    (array (items.map write)).list? read = some items := by
  change (items.map write).mapM read = some items
  induction items with
  | nil => rfl
  | cons item items ih =>
    rw [forall_mem_cons] at reads
    simp [mapM_cons, reads.1, ih reads.2]

@[simp] theorem depth_nat (value : Nat) : (nat value).depth = 0 := rfl

@[simp] theorem isPlain_nat (value : UInt32) : (nat value.toNat).isPlain = true := by
  have short : (Decimal.digits value.toNat).length ≤ 10 :=
    Decimal.length_digits_le (Nat.lt_trans value.toNat_lt (by decide))
  have shorter := (dropWhile_suffix (· == '0') (l := Decimal.digits value.toNat)).length_le
  simp [nat, isPlain, Numeral.isFinite, Numeral.ofNat]
  omega

end Json

/-! ## Names -/

@[simp] theorem FreePolicy.lookup_name (policy : FreePolicy) :
    byName.lookup policy.name = some policy := by
  cases policy <;> rfl

@[simp] theorem FunctionKind.lookup_name (kind : FunctionKind) :
    byName.lookup kind.name = some kind := by
  cases kind <;> rfl

@[simp] theorem Severity.lookup_name (severity : Severity) :
    byName.lookup severity.name = some severity := by
  cases severity <;> rfl

@[simp] theorem Category.lookup_name (category : Category) :
    byName.lookup category.name = some category := by
  cases category <;> rfl

open Json

/-! ## Configurations -/

namespace Config

theorem written_toJson (config : Config) : config.toJson.Written := by
  refine .record ?_
  simp only [forall_mem_cons]
  refine ⟨.text _, .text _, .nat _, .nat _, .nat _, ?_, .bool _, .bool _, .bool _, by simp⟩
  cases config.maxMemoryPages with
  | none => exact .null
  | some pages => exact .nat _

theorem ofJson?_toJson (config : Config) : ofJson? config.toJson = some config := by
  obtain ⟨_, _, _, _, _, pages, _, _, _⟩ := config
  unfold ofJson? toJson
  rw [recordFields_record (by simp)]
  simp only [fieldNames, map_cons, map_nil, lookup_cons, String.reduceEq, if_true, if_false]
  cases pages <;> simp [FieldValues.withDefault, FieldValues.find, lookup_cons]

end Config

/-! ## Source maps -/

namespace Span

theorem written_toJson (span : Span) : span.toJson.Written := by
  refine .record ?_
  simp only [members, forall_mem_cons]
  exact ⟨.nat _, .nat _, .nat _, .nat _, .nat _, .nat _, by simp⟩

theorem ofFields?_of_find {span fields}
    (found : ∀ mem ∈ span.members, fields.find mem.1 = some mem.2) :
    ofFields? fields = some span := by
  simp only [members, forall_mem_cons] at found
  simp [ofFields?, FieldValues.required, found]

theorem ofJson?_toJson (span : Span) : ofJson? span.toJson = some span := by
  unfold ofJson? toJson
  rw [recordFields_record (by simp [members])]
  refine ofFields?_of_find ?_
  simp [members, fieldNames, FieldValues.find, lookup_cons]

end Span

namespace SourceMap

theorem Entry.written_toJson (entry : Entry) : entry.toJson.Written := by
  refine .record ?_
  simp only [forall_mem_cons]
  exact ⟨.nat _, .text _, .text _, entry.span.written_toJson, by simp⟩

theorem Entry.ofJson?_toJson (entry : Entry) : ofJson? entry.toJson = some entry := by
  unfold ofJson? toJson
  rw [recordFields_record (by simp)]
  simp [fieldNames, FieldValues.required, FieldValues.find, lookup_cons, Span.ofJson?_toJson]

theorem written_toJson (map : SourceMap) : map.toJson.Written := by
  refine .record ?_
  simp only [forall_mem_cons]
  refine ⟨.text _, .text _, .array ?_, by simp⟩
  simp [Entry.written_toJson]

theorem ofJson?_toJson (map : SourceMap) : ofJson? map.toJson = some map := by
  unfold ofJson? toJson
  rw [recordFields_record (by simp)]
  simp [fieldNames, FieldValues.required, FieldValues.find, lookup_cons,
    list?_array fun entry _ => Entry.ofJson?_toJson entry]

theorem parse_render_toJson (map : SourceMap) : parse map.jsonText = some map := by
  rw [parse, jsonText, (written_toJson map).parse_render]
  exact ofJson?_toJson map

end SourceMap

/-! ## Diagnostics -/

namespace Diagnostic

theorem written_toJson (diagnostic : Diagnostic) : diagnostic.toJson.Written := by
  refine .record ?_
  simp only [forall_mem_append, forall_mem_cons]
  refine ⟨⟨⟨⟨.text _, .nat _, .text _, .text _, .text _, by simp⟩, ?_⟩, ?_⟩, ?_⟩
  · simp only [Span.members, forall_mem_cons]
    exact ⟨.nat _, .nat _, .nat _, .nat _, .nat _, .nat _, by simp⟩
  · split
    · simp
    · rw [forall_mem_singleton]
      refine .array ?_
      simp [Span.written_toJson]
  · cases diagnostic.suggestion with
    | none => simp
    | some suggestion =>
      rw [forall_mem_singleton]
      exact .text _

theorem ofJson?_toJson (diagnostic : Diagnostic) : ofJson? diagnostic.toJson = some diagnostic := by
  obtain ⟨file, code, severity, category, message, span, related, suggestion⟩ := diagnostic
  have places := list?_array fun (place : Span) (_ : place ∈ related) => Span.ofJson?_toJson place
  -- The last two members are left out when there is nothing to say.
  by_cases empty : related = [] <;> cases suggestion
  all_goals
    simp only [toJson, empty, Span.members, List.isEmpty_iff, if_true, if_false, cons_append,
      nil_append, append_nil]
    change (if _ then _ else none) = _
    rw [if_pos (by simp [readable, fieldNames]), namedFields_record (by simp)]
    simp only [fieldNames, Span.fieldNames, cons_append, nil_append, map_cons,
      map_nil, lookup_cons, String.reduceEq, if_true, if_false, lookup_nil]
    simp [FieldValues.required, FieldValues.withDefault, FieldValues.find, Span.ofFields?,
      lookup_cons, places]

namespace Batch

theorem written_toJson (batch : Batch) : batch.toJson.Written := by
  refine .record ?_
  simp only [forall_mem_cons]
  refine ⟨.array ?_, .array ?_, .nat _, .nat _, by simp⟩ <;> simp [Diagnostic.written_toJson]

theorem ofJson?_toJson {batch} (errorsFit : batch.totalErrors < 0x10000000000000000)
    (warningsFit : batch.totalWarnings < 0x10000000000000000) :
    ofJson? batch.toJson = some batch := by
  unfold ofJson? toJson
  rw [recordFields_record (by simp)]
  simp [fieldNames, FieldValues.required, FieldValues.find, lookup_cons, count?,
    list?_array fun diagnostic _ => Diagnostic.ofJson?_toJson diagnostic,
    natBelow?_nat errorsFit, natBelow?_nat warningsFit]

end Batch
end Diagnostic

/-- Configurations, source maps and batches are read back from their texts, whatever the
texts and numbers in them. The counts of a batch are those of 64 bits. -/
theorem parse_jsonText
    (config : Config)
    (map : SourceMap)
    {batch : Diagnostic.Batch}
    (errorsFit : batch.totalErrors < 0x10000000000000000)
    (warningsFit : batch.totalWarnings < 0x10000000000000000) :
    Config.parse config.jsonText = some config ∧
      SourceMap.parse map.jsonText = some map ∧
      Diagnostic.Batch.parse batch.jsonText = some batch := by
  refine ⟨?_, map.parse_render_toJson, ?_⟩
  · rw [Config.parse, Config.jsonText, config.written_toJson.parse_render]
    exact config.ofJson?_toJson
  · rw [Diagnostic.Batch.parse, Diagnostic.Batch.jsonText, batch.written_toJson.parse_render]
    exact Diagnostic.Batch.ofJson?_toJson errorsFit warningsFit

/-- Quotes, backslashes and control characters, with the greatest count. -/
theorem parse_jsonText_escapes :
    Config.parse
        { Config.standard with sourceName := "a\"\\\n", maxMemoryPages := some 9 }.jsonText =
        some { Config.standard with sourceName := "a\"\\\n", maxMemoryPages := some 9 } ∧
      SourceMap.parse (SourceMap.empty "\x01\"").jsonText = some (.empty "\x01\"") ∧
      Diagnostic.Batch.parse
          { Diagnostic.Batch.empty with
            errors := [(Diagnostic.error "\t" .typeMismatch "é" default).withRelated default]
            totalErrors := 0xffffffffffffffff }.jsonText =
        some { Diagnostic.Batch.empty with
          errors := [(Diagnostic.error "\t" .typeMismatch "é" default).withRelated default]
          totalErrors := 0xffffffffffffffff } :=
  parse_jsonText _ _ (by decide) (by decide)

end StructWasm
