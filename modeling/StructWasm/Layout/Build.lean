import StructWasm.Layout.Table
import StructWasm.Mistake

/-!
# Laying out the structures of a program

A structure can be laid out after the structures that it contains, so the
declarations are walked depth first. Meeting a structure again below itself
shows that it contains itself. All mistakes are gathered; there are layouts only
if there is no mistake.
-/

namespace StructWasm.Layouts

/-- What the walk has found so far. -/
structure Survey where
  layouts : Layouts
  failed : List String
  errors : List Diagnostic

namespace Survey

def empty : Survey :=
  { layouts := .empty, failed := [], errors := [] }

def note (survey : Survey) (error : Diagnostic) : Survey :=
  { survey with errors := survey.errors ++ [error] }

def fail (survey : Survey) (names : List String) : Survey :=
  { survey with failed := survey.failed ++ names }

def finish (survey : Survey) (layout : StructLayout) : Survey :=
  { survey with layouts := { structs := layout :: survey.layouts.structs } }

end Survey

def declaration? (decls : List StructDecl) (name : String) : Option StructDecl :=
  decls.reverse.find? fun decl => decl.name.name == name

def unvisited (decls : List StructDecl) (path : List String) : Nat :=
  decls.countP fun decl => !path.contains decl.name.name

/-- Fewer entries satisfy the stronger of two conditions if some entry satisfies
only the weaker one. -/
theorem countP_lt_countP_of_mem {α : Type} {strong weak : α → Bool}
    (implied : ∀ entry, strong entry = true → weak entry = true) {witness : α}
    (weakHolds : weak witness = true) (strongFails : strong witness = false) :
    ∀ {entries : List α}, witness ∈ entries →
      entries.countP strong < entries.countP weak
  | head :: tail, member => by
    have tailLe : tail.countP strong ≤ tail.countP weak :=
      List.countP_mono_left fun entry _ => implied entry
    rcases List.mem_cons.mp member with rfl | member
    · simp only [List.countP_cons, weakHolds, strongFails, if_true]
      exact Nat.lt_succ_of_le tailLe
    · have tailLt := countP_lt_countP_of_mem implied weakHolds strongFails member
      simp only [List.countP_cons]
      cases headStrong : strong head with
      | false => exact Nat.lt_of_lt_of_le tailLt (Nat.le_add_right _ _)
      | true =>
        simp only [implied head headStrong, if_true]
        exact Nat.succ_lt_succ tailLt

theorem unvisited_cons_lt {decls : List StructDecl} {path : List String} {name : String}
    {decl : StructDecl} (declared : declaration? decls name = some decl)
    (fresh : ¬ path.contains name = true) :
    unvisited decls (name :: path) < unvisited decls path := by
  have member : decl ∈ decls :=
    List.mem_reverse.mp (List.mem_of_find?_eq_some declared)
  have named : decl.name.name = name := by
    simpa using List.find?_some declared
  apply countP_lt_countP_of_mem _ _ _ member
  · intro entry outside
    simp at outside ⊢
    exact outside.2
  · simpa [named] using fresh
  · simp [named]

mutual

/-- Lay out the structure with a name, unless that is done, and say whether it has
a layout. The structures on the way to it are on the path, nearest first. -/
def visit (file : String) (decls : List StructDecl) (path : List String) (name : String)
    (survey : Survey) : Survey × Bool :=
  if (survey.layouts.get? name).isSome then
    (survey, true)
  else if survey.failed.contains name then
    (survey, false)
  else
    match _ : declaration? decls name with
    | none => (survey, false)
    | some decl =>
      if path.contains name then
        let chain := name :: (path.takeWhile (· != name)).reverse
        let mistake := Mistake.recursiveStructure name (chain ++ [name])
        ((survey.note (mistake.report file decl.name.span)).fail chain, false)
      else
        let (survey, fields) :=
          visitFields file decls (name :: path) name [] decl.fields survey
        match fields with
        | none => (survey.fail [name], false)
        | some fields =>
          if survey.failed.contains name then
            (survey, false)
          else
            match survey.layouts.place? name fields with
            | some layout => (survey.finish layout, true)
            | none =>
              let mistake := Mistake.structureTooLarge name
              ((survey.note (mistake.report file decl.name.span)).fail [name], false)
termination_by (unvisited decls path, 0)
decreasing_by
  apply Prod.Lex.left
  exact unvisited_cons_lt (by assumption) (by assumption)

/-- Lay out what the fields of a structure need. The types of the fields are given
back if all of them are good. -/
def visitFields (file : String) (decls : List StructDecl) (path : List String)
    (owner : String) (seen : List String) (fields : List TypedName) (survey : Survey) :
    Survey × Option (List (String × Ty)) :=
  match fields with
  | [] => (survey, some [])
  | field :: rest =>
    let name := field.name.name
    let (survey, type) :=
      if seen.contains name then
        let mistake := Mistake.duplicateFieldDeclaration name owner
        (survey.note (mistake.report file field.name.span), none)
      else
        match field.type.type with
        | .named inner =>
          if (declaration? decls inner).isSome then
            match visit file decls path inner survey with
            | (survey, true) => (survey, some (.struct inner))
            | (survey, false) => (survey, none)
          else
            let mistake := Mistake.unknownType inner
            (survey.note (mistake.report file field.type.span), none)
        | written => (survey, Ty.primitive? written)
    let (survey, others) :=
      visitFields file decls path owner (name :: seen) rest survey
    match type, others with
    | some type, some others => (survey, some ((name, type) :: others))
    | _, _ => (survey, none)
termination_by (unvisited decls path, fields.length + 1)

end

def duplicates (file : String) (seen : List String) : List StructDecl → List Diagnostic
  | [] => []
  | decl :: rest =>
    let name := decl.name.name
    let others := duplicates file (name :: seen) rest
    if seen.contains name then
      (Mistake.duplicateStructure name).report file decl.name.span :: others
    else
      others

def build (file : String) (decls : List StructDecl) : Except (List Diagnostic) Layouts :=
  let start := { Survey.empty with errors := duplicates file [] decls }
  let survey := decls.foldl
    (fun survey decl => (visit file decls [] decl.name.name survey).1) start
  if survey.errors.isEmpty then
    .ok survey.layouts
  else
    .error survey.errors

def resolve (layouts : Layouts) : WrittenType → Except Mistake Ty
  | .i32 => .ok .i32
  | .i64 => .ok .i64
  | .f32 => .ok .f32
  | .f64 => .ok .f64
  | .bool => .ok .bool
  | .named name =>
    match layouts.get? name with
    | some layout => .ok (.struct layout.name)
    | none => .error (.unknownType name)

end StructWasm.Layouts
