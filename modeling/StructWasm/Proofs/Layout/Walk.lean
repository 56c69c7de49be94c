import StructWasm.Proofs.Layout.Laid

/-!
# The walk over declarations

The walk finds out one thing after the other: a mistake in the fields of a structure or in
its size, a loop, that a structure has no layout, or its layout. What is true of all walks
follows from what each of these does to a survey.
-/

namespace StructWasm.Layouts

open List Relation Option

/-- A structure has a field of the other one. Only the first field of a name counts, and
only a structure that is declared. -/
def Holds (decls : List StructDecl) (outer inner : String) : Prop :=
  ∃ decl field, declaration? decls outer = some decl ∧
    decl.fields.find? (fun other => other.name.name == field.name.name) = some field ∧
    field.type.type = .named inner ∧ (declaration? decls inner).isSome

/-- The way from a structure through the structures inside it back to itself. -/
structure Loop (decls : List StructDecl) where
  head : String
  between : List String
  decl : StructDecl
  declared : declaration? decls head = some decl
  linked : (head :: between ++ [head]).IsChain (Holds decls)

def Loop.report {decls : List StructDecl} (loop : Loop decls) (file : String) : Diagnostic :=
  (Mistake.recursiveStructure loop.head (loop.head :: loop.between ++ [loop.head])).report file
    loop.decl.name.span

/-- A mistake in the fields of a structure or in its size. -/
inductive Flaw (decls : List StructDecl) : Mistake → Prop
  | repeated {decl : StructDecl} (mem : decl ∈ decls)
      (again : ¬ (decl.fields.map fun field => field.name.name).Nodup) (name owner : String) :
      Flaw decls (.duplicateFieldDeclaration name owner)
  | undeclared {decl : StructDecl} {field : TypedName} {inner : String} (mem : decl ∈ decls)
      (inFields : field ∈ decl.fields) (written : field.type.type = .named inner)
      (unknown : ¬ (declaration? decls inner).isSome) : Flaw decls (.unknownType inner)
  | large {decl : StructDecl} {taken : Nat × Nat} (mem : decl ∈ decls)
      (occupies : Occupies decls (.named decl.name.name) taken) (large : ¬ taken.1 < sizeLimit) :
      Flaw decls (.structureTooLarge decl.name.name)

/-- Whether the walk is done with a structure. -/
def Survey.Knows (survey : Survey) (name : String) : Prop :=
  (survey.layouts.get? name).isSome ∨ name ∈ survey.failed

def Survey.Flawed (survey : Survey) : Prop :=
  survey.errors ≠ [] ∨ survey.failed ≠ []

/-- What the walk can find out, and what becomes of the survey. -/
inductive Event (file : String) (decls : List StructDecl) : Survey → Survey → Prop
  | note {survey : Survey} {mistake : Mistake} (flaw : Flaw decls mistake) (span : Span) :
      Event file decls survey (survey.note (mistake.report file span))
  | loop {survey : Survey} (loop : Loop decls) (fresh : loop.head ∉ survey.failed) :
      Event file decls survey
        ((survey.note (loop.report file)).fail (loop.head :: loop.between))
  | refuse {survey : Survey} {name : String}
      (settled : ∀ inner, Holds decls name inner → survey.Knows inner) (flawed : survey.Flawed) :
      Event file decls survey (survey.fail [name])
  | finish {survey : Survey} {name : String} {decl : StructDecl} {layout : StructLayout}
      (fresh : survey.layouts.get? name = none) (declared : declaration? decls name = some decl)
      (typed : Typed [] survey.layouts (typedFields decl.fields))
      (placed : survey.layouts.place? name (typedFields decl.fields) = some layout) :
      Event file decls survey (survey.finish layout)

variable {file : String} {decls : List StructDecl} {path : List String} {name owner : String}
  {survey before after : Survey} {seen : List String} {field : TypedName}

/-! ## Runs -/

/-- A survey keeps what it knows. -/
structure Survey.Grows (before after : Survey) : Prop where
  layouts : before.layouts.Extends after.layouts
  failed : before.failed ⊆ after.failed
  errors : before.errors <+: after.errors

theorem Event.grows (event : Event file decls before after) : before.Grows after := by
  cases event with
  | note => exact ⟨fun _ _ => id, Subset.refl _, prefix_append _ _⟩
  | loop => exact ⟨fun _ _ => id, subset_append_left _ _, prefix_append _ _⟩
  | refuse => exact ⟨fun _ _ => id, subset_append_left _ _, prefix_refl _⟩
  | finish fresh _ _ placed => exact ⟨extends_cons fresh placed, Subset.refl _, prefix_refl _⟩

theorem grows_of_run (run : ReflTransGen (Event file decls) before after) : before.Grows after := by
  induction run with
  | refl => exact ⟨fun _ _ => id, Subset.refl _, prefix_refl _⟩
  | tail _ event ih =>
    have grows := event.grows
    exact ⟨fun name layout found => grows.layouts name layout (ih.layouts name layout found),
      List.Subset.trans ih.failed grows.failed, ih.errors.trans grows.errors⟩

theorem Survey.Knows.mono (knows : before.Knows name) (grows : before.Grows after) :
    after.Knows name := by
  refine knows.imp (fun found => ?_) (@grows.failed _)
  obtain ⟨layout, found⟩ := isSome_iff_exists.mp found
  exact isSome_of_eq_some (grows.layouts name layout found)

theorem Survey.Flawed.mono (flawed : before.Flawed) (grows : before.Grows after) :
    after.Flawed := by
  rcases flawed with some | some
  · exact .inl fun none => some (prefix_nil.mp (none ▸ grows.errors))
  · exact .inr fun none => some (subset_nil.mp (none ▸ grows.failed))

theorem laid_of_run (run : ReflTransGen (Event file decls) before after)
    (laid : Laid decls before.layouts) : Laid decls after.layouts := by
  induction run with
  | refl => exact laid
  | tail _ event ih =>
    cases event with
    | finish fresh declared typed placed => exact ih.add fresh declared typed placed
    | _ => exact ih

/-! ## Parts of the walk -/

/-- A run that lays out nothing on the path. -/
structure Walked (file : String) (decls : List StructDecl) (path : List String)
    (before after : Survey) : Prop where
  run : ReflTransGen (Event file decls) before after
  avoids : ∀ name ∈ path, before.layouts.get? name = none → after.layouts.get? name = none

theorem Walked.refl (survey : Survey) : Walked file decls path survey survey :=
  ⟨.refl, fun _ _ missing => missing⟩

theorem Walked.trans (first : Walked file decls path before mid)
    (second : Walked file decls path mid after) : Walked file decls path before after :=
  ⟨first.run.trans second.run, fun name mem missing =>
    second.avoids name mem (first.avoids name mem missing)⟩

/-- An event that does not touch the layouts. -/
theorem Walked.event (walked : Walked file decls path before mid)
    (event : Event file decls mid after) (same : after.layouts = mid.layouts) :
    Walked file decls path before after :=
  ⟨walked.run.tail event, fun name mem missing => same ▸ walked.avoids name mem missing⟩

theorem Walked.off (walked : Walked file decls (name :: path) before after) :
    Walked file decls path before after :=
  ⟨walked.run, fun other mem => walked.avoids other (.tail _ mem)⟩

/-- What a visit to a structure comes to. -/
structure Visited (file : String) (decls : List StructDecl) (path : List String) (name : String)
    (before : Survey) (result : Survey × Bool) : Prop
    extends Walked file decls path before result.1 where
  done : result.2 = true → (result.1.layouts.get? name).isSome
  refused : result.2 = false → name ∈ result.1.failed

theorem Visited.knows (visited : Visited file decls path name before result) :
    result.1.Knows name := by
  cases said : result.2 with
  | true => exact .inl (visited.done said)
  | false => exact .inr (visited.refused said)

/-- What a visit to a field comes to. -/
structure FieldVisited (file : String) (decls : List StructDecl) (path seen : List String)
    (field : TypedName) (before : Survey) (result : Survey × Option Ty) : Prop
    extends Walked file decls path before result.1 where
  knows : field.name.name ∉ seen → ∀ inner, field.type.type = .named inner →
    (declaration? decls inner).isSome → result.1.Knows inner
  typed : ∀ type, result.2 = some type →
    field.name.name ∉ seen ∧ type = typeOf field.type.type ∧ result.1.layouts.Known type
  flawed : result.2 = none → result.1.Flawed

/-- What a visit to some fields comes to. -/
structure FieldsVisited (file : String) (decls : List StructDecl) (path seen : List String)
    (fields : List TypedName) (before : Survey)
    (result : Survey × Option (List (String × Ty))) : Prop
    extends Walked file decls path before result.1 where
  knows : ∀ field, field.name.name ∉ seen →
    fields.find? (fun other => other.name.name == field.name.name) = some field →
    ∀ inner, field.type.type = .named inner → (declaration? decls inner).isSome →
    result.1.Knows inner
  typed : ∀ types, result.2 = some types →
    types = typedFields fields ∧ Typed seen result.1.layouts types
  flawed : result.2 = none → result.1.Flawed

/-- Lay out what one field needs. -/
def visitField (file : String) (decls : List StructDecl) (path : List String) (owner : String)
    (seen : List String) (field : TypedName) (survey : Survey) : Survey × Option Ty :=
  if seen.contains field.name.name then
    (survey.note
      ((Mistake.duplicateFieldDeclaration field.name.name owner).report file field.name.span), none)
  else
    match field.type.type with
    | .named inner =>
      if (declaration? decls inner).isSome then
        match visit file decls path inner survey with
        | (survey, true) => (survey, some (.struct inner))
        | (survey, false) => (survey, none)
      else
        (survey.note ((Mistake.unknownType inner).report file field.type.span), none)
    | written => (survey, Ty.primitive? written)

/-- A field and the fields after it have types if all of them do. -/
def joinFields (name : String) (first : Survey × Option Ty)
    (others : Survey → Survey × Option (List (String × Ty))) :
    Survey × Option (List (String × Ty)) :=
  let (survey, type) := first
  let (survey, others) := others survey
  match type, others with
  | some type, some others => (survey, some ((name, type) :: others))
  | _, _ => (survey, none)

theorem joinFields_eq (name : String) (first : Survey × Option Ty)
    (others : Survey → Survey × Option (List (String × Ty))) : joinFields name first others =
      ((others first.1).1,
        first.2.bind fun type => (others first.1).2.map ((name, type) :: ·)) := by
  unfold joinFields
  obtain ⟨mid, type⟩ := first
  dsimp only
  generalize others mid = second
  obtain ⟨next, others⟩ := second
  cases type <;> cases others <;> rfl

theorem visitFields_cons (field : TypedName) (rest : List TypedName) :
    visitFields file decls path owner seen (field :: rest) survey =
      let first := visitField file decls path owner seen field survey
      let second := visitFields file decls path owner (field.name.name :: seen) rest first.1
      (second.1, first.2.bind fun type => second.2.map ((field.name.name, type) :: ·)) := by
  rw [visitFields]
  exact joinFields_eq field.name.name (visitField file decls path owner seen field survey)
    (visitFields file decls path owner (field.name.name :: seen) rest)

theorem visited_field (owner : String) (mem : decl ∈ decls) (inFields : field ∈ decl.fields)
    (unseen : (decl.fields.map fun field => field.name.name).Nodup → field.name.name ∉ seen)
    (visits : field.name.name ∉ seen → ∀ inner, field.type.type = .named inner →
      (declaration? decls inner).isSome →
      Visited file decls path inner survey (visit file decls path inner survey)) :
    FieldVisited file decls path seen field survey
      (visitField file decls path owner seen field survey) := by
  have flawed (survey : Survey) (error : Diagnostic) : (survey.note error).Flawed :=
    .inl (concat_ne_nil _ _)
  unfold visitField
  split
  · rename_i again
    have again : field.name.name ∈ seen := by simpa using again
    have flaw := Flaw.repeated mem (fun distinct => unseen distinct again) field.name.name owner
    exact ⟨(Walked.refl survey).event (.note flaw _) rfl, fun fresh => absurd again fresh,
      (fun _ found => by cases found), fun _ => flawed _ _⟩
  · rename_i fresh
    replace fresh : field.name.name ∉ seen := by simpa using fresh
    split
    · rename_i inner written
      have same (other : String) (also : field.type.type = .named other) : other = inner :=
        WrittenType.named.inj (also.symm.trans written)
      split
      · rename_i declared
        have visited := visits fresh inner written declared
        generalize visit file decls path inner survey = result at visited ⊢
        obtain ⟨next, said⟩ := result
        have knows : ∀ other, field.type.type = .named other → next.Knows other :=
          fun other also => same other also ▸ visited.knows
        cases said with
        | true =>
          refine ⟨visited.toWalked, fun _ other also _ => knows other also, ?_, (by cases ·)⟩
          rintro _ ⟨⟩
          exact ⟨fresh, by rw [written]; rfl, known_struct (visited.done rfl)⟩
        | false =>
          exact ⟨visited.toWalked, fun _ other also _ => knows other also,
            (fun _ found => by cases found), fun _ => .inr (ne_nil_of_mem (visited.refused rfl))⟩
      · rename_i undeclared
        have flaw := Flaw.undeclared mem inFields written undeclared
        exact ⟨(Walked.refl survey).event (.note flaw _) rfl,
          fun _ other also declared => absurd (same other also ▸ declared) undeclared,
          (fun _ found => by cases found), fun _ => flawed _ _⟩
    · rename_i primitive
      have known : Ty.primitive? field.type.type = some (typeOf field.type.type) ∧
          (typeOf field.type.type).isStruct = false := by
        cases written : field.type.type with
        | named inner => exact absurd written (primitive inner)
        | _ => exact ⟨rfl, rfl⟩
      refine ⟨.refl survey, fun _ inner also => absurd also (primitive inner), ?_, ?_⟩
      · rintro type found
        obtain rfl := some.inj (known.1.symm.trans found)
        exact ⟨fresh, rfl, known_of_not_struct known.2⟩
      · intro missing
        rw [known.1] at missing
        cases missing

theorem takeWhile_concat_prefix (again : name ∈ path) :
    path.takeWhile (· != name) ++ [name] <+: path := by
  induction path with
  | nil => cases again
  | cons head rest ih =>
    by_cases same : head = name
    · subst same
      simp
    · rw [takeWhile_cons, if_pos (by simpa using same), cons_append]
      exact cons_prefix_cons.mpr ⟨rfl, ih ((mem_cons.mp again).resolve_left (Ne.symm same))⟩

/-- Meeting a structure again closes the path from it. -/
theorem linked_of_chain (chain : (name :: path).IsChain fun inner outer => Holds decls outer inner)
    (again : name ∈ path) :
    (name :: (path.takeWhile (· != name)).reverse ++ [name]).IsChain (Holds decls) := by
  have part := chain.prefix (cons_prefix_cons.mpr ⟨rfl, takeWhile_concat_prefix again⟩)
  rw [← isChain_reverse] at part
  simpa using part

theorem find?_of_fresh (fields_eq : fields = front ++ field :: rest)
    (fresh : field.name.name ∉ (front.map fun field => field.name.name).reverse) :
    fields.find? (fun other => other.name.name == field.name.name) = some field := by
  have absent : front.find? (fun other => other.name.name == field.name.name) = none := by
    simpa using fresh
  rw [fields_eq, find?_append, absent]
  simp

/-- A field and the fields after it. -/
theorem FieldVisited.cons {rest type others}
    (first : FieldVisited file decls path seen field before (mid, type))
    (second : FieldsVisited file decls path (field.name.name :: seen) rest mid (after, others)) :
    FieldsVisited file decls path seen (field :: rest) before
      (after, type.bind fun type => others.map ((field.name.name, type) :: ·)) := by
  have walked : Walked file decls path before after := first.toWalked.trans second.toWalked
  have grows := grows_of_run second.run
  have knows : ∀ other, other.name.name ∉ seen →
      (field :: rest).find? (fun entry => entry.name.name == other.name.name) = some other →
      ∀ inner, other.type.type = .named inner → (declaration? decls inner).isSome →
      after.Knows inner := by
    intro other fresh found inner written declared
    rw [find?_cons] at found
    split at found
    · obtain rfl := some.inj found
      exact (first.knows fresh inner written declared).mono grows
    · rename_i ne
      refine second.knows other ?_ found inner written declared
      refine fun again => (mem_cons.mp again).elim (fun same => ?_) fresh
      rw [same, beq_self_eq_true] at ne
      cases ne
  cases type with
  | none =>
    have flawed := (first.flawed rfl).mono grows
    exact ⟨walked, knows, (fun _ found => by cases found), fun _ => flawed⟩
  | some type =>
    cases others with
    | none => exact ⟨walked, knows, (fun _ found => by cases found), fun _ => second.flawed rfl⟩
    | some others =>
      refine ⟨walked, knows, ?_, (by cases ·)⟩
      rintro _ ⟨⟩
      obtain ⟨rfl, typed⟩ := second.typed others rfl
      obtain ⟨fresh, rfl, known⟩ := first.typed type rfl
      refine ⟨rfl, ?_, ?_, ?_⟩
      · refine forall_mem_cons.mpr ⟨fresh, fun other mem already => ?_⟩
        exact typed.unseen other mem (.tail _ already)
      · refine nodup_cons.mpr ⟨fun again => ?_, typed.distinct⟩
        obtain ⟨other, mem, same⟩ := mem_map.mp again
        exact typed.unseen other mem (same ▸ mem_cons_self)
      · intro other inner mem
        rcases mem_cons.mp mem with same | mem
        · obtain ⟨layout, found⟩ := isSome_iff_exists.mp (known inner (Prod.mk.inj same).2.symm)
          exact isSome_of_eq_some (grows.layouts inner layout found)
        · exact typed.known other inner mem

/-! ## Layouts -/

theorem Walked.finish {decl layout} (walked : Walked file decls (name :: path) before after)
    (outside : name ∉ path) (missing : before.layouts.get? name = none)
    (declared : declaration? decls name = some decl)
    (typed : Typed [] after.layouts (typedFields decl.fields))
    (placed : after.layouts.place? name (typedFields decl.fields) = some layout) :
    Visited file decls path name before (after.finish layout, true) := by
  have fresh := walked.avoids name mem_cons_self missing
  refine ⟨⟨walked.run.tail (.finish fresh declared typed placed), fun other onPath missing => ?_⟩,
    fun _ => ?_, (by cases ·)⟩
  · change get? { structs := layout :: after.layouts.structs } other = none
    rw [get?_cons, name_of_place? placed, if_neg]
    · exact walked.avoids other (.tail _ onPath) missing
    · rintro rfl
      exact outside onPath
  · change (get? { structs := layout :: after.layouts.structs } name).isSome
    rw [get?_cons, if_pos (name_of_place? placed)]
    rfl

/-- A structure without a layout is too large, also over all numbers. -/
theorem flaw_of_unplaced (laid : Laid decls layouts)
    (declared : declaration? decls name = some decl)
    (typed : Typed [] layouts (typedFields decl.fields))
    (unplaced : layouts.place? name (typedFields decl.fields) = none) :
    Flaw decls (.structureTooLarge name) := by
  obtain ⟨mem, rfl⟩ := declaration?_eq_some declared
  rw [laid.built.aligned.place?_eq, map_extent_typedFields] at unplaced
  have occupies : Occupies decls (.named decl.name.name) _ :=
    .struct (fun written => layouts.extent (typeOf written)) declared
      fun field inFields => laid.follow.occupies (typed.known_typeOf inFields)
  refine .large mem occupies fun small => ?_
  rw [if_pos small] at unplaced
  cases unplaced

/-! ## The walk -/

mutual

theorem visited_visit (file : String) (decls : List StructDecl) (path : List String)
    (name : String) (survey : Survey) (laid : Laid decls survey.layouts)
    (declared : (declaration? decls name).isSome)
    (chain : (name :: path).IsChain fun inner outer => Holds decls outer inner) :
    Visited file decls path name survey (visit file decls path name survey) := by
  rw [visit]
  split
  · rename_i mem
    exact ⟨.refl survey, fun _ => mem, (by cases ·)⟩
  · rename_i missing
    split
    · rename_i failed
      exact ⟨.refl survey, (by cases ·), fun _ => by simpa using failed⟩
    · rename_i fresh
      replace fresh : name ∉ survey.failed := by simpa using fresh
      split
      · rename_i undeclared
        rw [undeclared] at declared
        cases declared
      · rename_i decl isDecl
        split
        · rename_i again
          have again : name ∈ path := by simpa using again
          let loop : Loop decls := ⟨name, (path.takeWhile (· != name)).reverse, decl, isDecl,
            linked_of_chain chain again⟩
          exact ⟨(Walked.refl survey).event (.loop loop fresh) rfl, (by cases ·),
            fun _ => mem_append_right _ mem_cons_self⟩
        · rename_i outside
          replace outside : name ∉ path := by simpa using outside
          have visited := visited_visitFields file decls path name [] decl.fields survey laid
            isDecl ⟨[], rfl, rfl⟩ chain
          dsimp only
          generalize visitFields file decls (name :: path) name [] decl.fields survey =
            result at visited ⊢
          obtain ⟨next, found⟩ := result
          have laid := laid_of_run visited.run laid
          have settled : ∀ inner, Holds decls name inner → next.Knows inner := by
            rintro inner ⟨other, field, isOther, first, written, inDecls⟩
            obtain rfl := some.inj (isDecl.symm.trans isOther)
            exact visited.knows field not_mem_nil first inner written inDecls
          cases found with
          | none =>
            exact ⟨visited.off.event (.refuse settled (visited.flawed rfl)) rfl, (by cases ·),
              fun _ => mem_append_right _ mem_cons_self⟩
          | some fields =>
            obtain ⟨rfl, typed⟩ := visited.typed fields rfl
            dsimp only
            split
            · rename_i failed
              exact ⟨visited.off, (by cases ·), fun _ => by simpa using failed⟩
            · split
              · rename_i layout placed
                exact visited.finish outside (not_isSome_iff_eq_none.mp missing) isDecl typed placed
              · rename_i unplaced
                have flaw := flaw_of_unplaced laid isDecl typed unplaced
                refine ⟨(visited.off.event (.note flaw _) rfl).event (.refuse (fun inner holds =>
                  settled inner holds) (.inl (concat_ne_nil _ _))) rfl, (by cases ·), fun _ => ?_⟩
                exact mem_append_right _ mem_cons_self
termination_by (unvisited decls path, 0)
decreasing_by
  apply Prod.Lex.left
  exact unvisited_cons_lt (by assumption) (by assumption)

theorem visited_visitFields (file : String) (decls : List StructDecl) (path : List String)
    (owner : String) (seen : List String) (fields : List TypedName) (survey : Survey)
    (laid : Laid decls survey.layouts) {decl} (isDecl : declaration? decls owner = some decl)
    (fields_eq : ∃ front, decl.fields = front ++ fields ∧
      seen = (front.map fun field => field.name.name).reverse)
    (chain : (owner :: path).IsChain fun inner outer => Holds decls outer inner) :
    FieldsVisited file decls (owner :: path) seen fields survey
      (visitFields file decls (owner :: path) owner seen fields survey) := by
  match fields with
  | [] =>
    rw [visitFields]
    refine ⟨.refl survey, (fun _ _ found => by cases found), ?_, (by cases ·)⟩
    rintro _ ⟨⟩
    exact ⟨rfl, (fun _ mem => by cases mem), nodup_nil, fun _ _ mem => by cases mem⟩
  | field :: rest =>
    rw [visitFields_cons]
    obtain ⟨front, fields_eq, rfl⟩ := fields_eq
    have inFields : field ∈ decl.fields := fields_eq ▸ mem_append_right _ mem_cons_self
    have first := visited_field owner (declaration?_eq_some isDecl).1 inFields (by
        rw [fields_eq, map_append, nodup_append]
        rintro ⟨-, -, apart⟩ again
        exact apart _ (mem_reverse.mp again) _ mem_cons_self rfl)
      (fun fresh inner written declared => visited_visit file decls (owner :: path) inner survey
        laid declared (isChain_cons_cons.mpr
          ⟨⟨decl, field, isDecl, find?_of_fresh fields_eq fresh, written, declared⟩, chain⟩))
    dsimp only
    generalize visitField file decls (owner :: path) owner _ field survey = step at first ⊢
    obtain ⟨mid, type⟩ := step
    have second := visited_visitFields file decls path owner
      (field.name.name :: (front.map fun field => field.name.name).reverse) rest mid
      (laid_of_run first.run laid) isDecl
      ⟨front ++ [field], by rw [fields_eq, append_assoc]; rfl, by simp⟩ chain
    dsimp only at second ⊢
    generalize visitFields file decls (owner :: path) owner _ rest mid = result at second ⊢
    obtain ⟨next, others⟩ := result
    exact first.cons second
termination_by (unvisited decls (owner :: path), fields.length + 1)

end

/-- Walks from some of the declarations, one after the other. -/
def visitAll (file : String) (decls visited : List StructDecl) (survey : Survey) : Survey :=
  visited.foldl (fun survey decl => (visit file decls [] decl.name.name survey).1) survey

theorem visited_visitAll (among : visited ⊆ decls) (survey : Survey)
    (laid : Laid decls survey.layouts) :
    ReflTransGen (Event file decls) survey (visitAll file decls visited survey) ∧
      ∀ decl ∈ visited, (visitAll file decls visited survey).Knows decl.name.name := by
  induction visited generalizing survey with
  | nil => exact ⟨.refl, fun _ mem => by cases mem⟩
  | cons decl rest ih =>
    have first := visited_visit file decls [] decl.name.name survey laid
      (isSome_declaration?.mpr (mem_map_of_mem (among mem_cons_self))) (isChain_singleton _)
    obtain ⟨run, knows⟩ := ih (fun _ mem => among (mem_cons_of_mem _ mem)) _
      (laid_of_run first.run laid)
    exact ⟨first.run.trans run, forall_mem_cons.mpr ⟨first.knows.mono (grows_of_run run), knows⟩⟩

/-- What the walk starts from: the names that are declared again. -/
def Survey.start (file : String) (decls : List StructDecl) : Survey :=
  { Survey.empty with errors := duplicates file [] decls }

theorem build_eq (file : String) (decls : List StructDecl) : build file decls =
      let survey := visitAll file decls decls (.start file decls)
      if survey.errors.isEmpty then .ok survey.layouts else .error survey.errors :=
  rfl

/-- How the walk over all declarations ends. -/
structure Surveyed (file : String) (decls : List StructDecl) (survey : Survey) : Prop where
  run : ReflTransGen (Event file decls) (.start file decls) survey
  knows : ∀ name, (declaration? decls name).isSome → survey.Knows name
  laid : Laid decls survey.layouts

theorem surveyed (file : String) (decls : List StructDecl) :
    Surveyed file decls (visitAll file decls decls (.start file decls)) := by
  obtain ⟨run, knows⟩ := visited_visitAll (Subset.refl decls) (.start file decls) .empty
  refine ⟨run, fun name declared => ?_, laid_of_run run .empty⟩
  obtain ⟨decl, mem, rfl⟩ := mem_map.mp (isSome_declaration?.mp declared)
  exact knows decl mem

theorem surveyed_of_build (builds : build file decls = .ok layouts) :
    ∃ survey, Surveyed file decls survey ∧ survey.errors = [] ∧ survey.layouts = layouts := by
  rw [build_eq] at builds
  dsimp only at builds
  split at builds
  · rename_i none
    exact ⟨_, surveyed file decls, isEmpty_iff.mp none, Except.ok.inj builds⟩
  · cases builds

theorem built_of_build (builds : build file decls = .ok layouts) : layouts.Built := by
  obtain ⟨survey, surveyed, -, rfl⟩ := surveyed_of_build builds
  exact surveyed.laid.built

end StructWasm.Layouts
