import StructWasm.Proofs.Layout.Fields

/-!
# Sizes of declared structures

What a structure takes in memory if numbers have no bound. The layout of a structure is
this whenever the size stays below the bound.
-/

namespace StructWasm.Layouts

open List Option Nat

/-- A structure has a field of the other one. -/
def Contains (decls : List StructDecl) (outer inner : String) : Prop :=
  ∃ decl, declaration? decls outer = some decl ∧
    ∃ field ∈ decl.fields, field.type.type = .named inner

/-- Fields one after the other: their offsets, the byte after them and the greatest
alignment. -/
structure Row where
  offsets : List Nat
  stop : Nat
  alignment : Nat

/-- Size and alignment of a structure with such fields. -/
def Row.extent (row : Row) : Nat × Nat :=
  (nextMultiple row.stop row.alignment, row.alignment)

/-- Fields of some sizes and alignments from a byte on, over numbers without a bound. -/
def layOut (start alignment : Nat) : List (Nat × Nat) → Row
  | [] => { offsets := [], stop := start, alignment }
  | taken :: rest =>
    let offset := nextMultiple start taken.2
    let row := layOut (offset + taken.1) (max alignment taken.2) rest
    { row with offsets := offset :: row.offsets }

/-- Size and alignment of a written type, over numbers without a bound. -/
inductive Occupies (decls : List StructDecl) : WrittenType → Nat × Nat → Prop
  | primitive {written : WrittenType} (primitive : (typeOf written).isStruct = false) :
      Occupies decls written ((typeOf written).valType.size, (typeOf written).valType.size)
  | struct {name : String} {decl : StructDecl} (extent : WrittenType → Nat × Nat)
      (declared : declaration? decls name = some decl)
      (each : ∀ field ∈ decl.fields, Occupies decls field.type.type (extent field.type.type)) :
      Occupies decls (.named name)
        (layOut 0 1 (decl.fields.map fun field => extent field.type.type)).extent

variable {layouts : Layouts} {name : String}

theorem Occupies.unique (first : Occupies decls written taken)
    (second : Occupies decls written other) : taken = other := by
  induction first generalizing other with
  | primitive primitive =>
    cases second with
    | primitive => rfl
    | struct => cases primitive
  | struct extent declared each ih =>
    cases second with
    | primitive primitive => cases primitive
    | struct otherExtent otherDeclared otherEach =>
      obtain rfl := some.inj (declared.symm.trans otherDeclared)
      rw [map_congr_left fun field mem => ih field mem (otherEach field mem)]

theorem Occupies.isDeclared (occupies : Occupies decls (.named name) taken) :
    (declaration? decls name).isSome := by
  cases occupies with
  | primitive primitive => cases primitive
  | struct _ declared => exact isSome_of_eq_some declared

/-- A structure of a size contains structures to a finite depth. -/
theorem Occupies.acc (occupies : Occupies decls (.named name) taken) :
    Acc (fun inner outer => Contains decls outer inner) name := by
  generalize named : WrittenType.named name = written at occupies
  induction occupies generalizing name with
  | primitive primitive =>
    subst named
    cases primitive
  | struct extent declared each ih =>
    cases named
    refine ⟨_, ?_⟩
    rintro inner ⟨decl, isDecl, field, mem, inner_eq⟩
    obtain rfl := some.inj (declared.symm.trans isDecl)
    exact ih field mem inner_eq.symm

/-! ## Layouts -/

/-- Size and alignment of a type in a table. -/
def extent (layouts : Layouts) (type : Ty) : Nat × Nat :=
  (layouts.size type, layouts.alignment type)

@[simp] theorem extent_fst (layouts : Layouts) (type : Ty) :
    (layouts.extent type).1 = layouts.size type :=
  rfl

@[simp] theorem extent_snd (layouts : Layouts) (type : Ty) :
    (layouts.extent type).2 = layouts.alignment type :=
  rfl

theorem Aligned.le_layOut (aligned : layouts.Aligned) (start alignment : Nat)
    (fields : List (String × Ty)) :
    let row := layOut start alignment (fields.map fun field => layouts.extent field.2)
    start ≤ row.stop ∧ alignment ≤ row.alignment := by
  induction fields generalizing start alignment with
  | nil => exact ⟨le_refl _, le_refl _⟩
  | cons field rest ih =>
    have fromStart := le_nextMultiple (pos_of_isPowerOfTwo (aligned field.2)) start
    obtain ⟨stops, raises⟩ := ih (nextMultiple start (layouts.alignment field.2) +
      layouts.size field.2) (max alignment (layouts.alignment field.2))
    exact ⟨le_trans (le_trans fromStart (le_add_right _ _)) stops,
      le_trans (le_max_left _ _) raises⟩

theorem Aligned.placeFields?_eq (aligned : layouts.Aligned) {start alignment : Nat}
    (small : start < sizeLimit) (fields : List (String × Ty)) :
    let row := layOut start alignment (fields.map fun field => layouts.extent field.2)
    layouts.placeFields? start alignment fields = if row.stop < sizeLimit then
        some {
          fields := zipWith (fun field offset => ⟨field.1, field.2, offset⟩) fields row.offsets
          stop := row.stop
          alignment := row.alignment }
      else
        none := by
  induction fields generalizing start alignment with
  | nil => exact (if_pos small).symm
  | cons field rest ih =>
    obtain ⟨name, type⟩ := field
    have stops := (aligned.le_layOut (nextMultiple start (layouts.alignment type) +
      layouts.size type) (max alignment (layouts.alignment type)) rest).1
    simp only [Layouts.placeFields?, bounded?, map_cons, layOut, extent_fst, extent_snd]
    by_cases fits : nextMultiple start (layouts.alignment type) + layouts.size type < sizeLimit
    · rw [if_pos (Nat.lt_of_le_of_lt (Nat.le_add_right _ _) fits)]
      simp only [Option.bind_eq_bind, Option.bind_some, if_pos fits, ih fits]
      split <;> rfl
    · rw [if_neg (Nat.not_lt.mpr (Nat.le_trans (Nat.le_of_not_lt fits) stops))]
      split
      · simp only [Option.bind_eq_bind, Option.bind_some, if_neg fits]
        rfl
      · rfl

/-- A structure has a layout if its size stays below the bound. -/
theorem Aligned.place?_eq (aligned : layouts.Aligned) (name : String)
    (fields : List (String × Ty)) :
    let row := layOut 0 1 (fields.map fun field => layouts.extent field.2)
    layouts.place? name fields = if row.extent.1 < sizeLimit then
        some {
          name
          size := row.extent.1
          alignment := row.alignment
          fields := zipWith (fun field offset => ⟨field.1, field.2, offset⟩) fields row.offsets
          shape := .composite (fields.map fun field => (field.1, layouts.shape field.2)) }
      else
        none := by
  intro row
  have rounded : row.stop ≤ row.extent.1 := le_nextMultiple (aligned.le_layOut 0 1 fields).2 _
  rw [place?, aligned.placeFields?_eq (by decide) fields]
  by_cases stops : row.stop < sizeLimit
  · rw [if_pos stops]
    simp only [bind_eq_bind, bind_some, bounded?]
    change (if row.extent.1 < sizeLimit then some row.extent.1 else none).bind _ = _
    split <;> rfl
  · rw [if_neg stops, if_neg (by omega)]
    rfl

end StructWasm.Layouts
