import Mathlib

/-!
# Outcomes of steps that may fail

A chain of steps succeeds if every step does, and fails with the fault of the
first step that fails.
-/

namespace StructWasm

variable {ε α β : Type}

theorem bind_eq_ok {first} {next : α → Except ε β} {result} :
    (first >>= next) = .ok result ↔ ∃ value, first = .ok value ∧ next value = .ok result := by
  cases first <;> simp [bind, Except.bind]

theorem bind_eq_error {first} {next : α → Except ε β} {fault} : (first >>= next) = .error fault ↔
      first = .error fault ∨ ∃ value, first = .ok value ∧ next value = .error fault := by
  cases first <;> simp [bind, Except.bind]

@[simp] theorem pure_eq_ok {value result} :
    (pure value : Except ε α) = .ok result ↔ value = result := by
  simp [pure, Except.pure]

@[simp] theorem pure_ne_error {value fault} : (pure value : Except ε α) ≠ .error fault := by
  simp [pure, Except.pure]

@[simp] theorem throw_ne_ok {cause result} : (throw cause : Except ε α) ≠ .ok result := by
  simp [throw, throwThe, MonadExceptOf.throw]

theorem eq_ok_of_toOption {out : Except ε α} {value} (given : out.toOption = some value) :
    out = .ok value := by
  cases out with
  | error fault => cases given
  | ok found =>
    injection given with same
    rw [same]

variable {entries : List α} {step : α → Except ε β}

/-- The steps for the members of a list all succeed if the whole does, each with
its member of the result. -/
theorem forall₂_of_mapM_ok (succeeded : entries.mapM step = .ok results) :
    List.Forall₂ (fun entry result => step entry = .ok result) entries results := by
  induction entries generalizing results with
  | nil =>
    simp only [List.mapM_nil, pure_eq_ok] at succeeded
    subst succeeded
    exact .nil
  | cons entry entries ih =>
    rw [List.mapM_cons] at succeeded
    obtain ⟨result, first, succeeded⟩ := bind_eq_ok.mp succeeded
    obtain ⟨others, rest, succeeded⟩ := bind_eq_ok.mp succeeded
    rw [pure_eq_ok] at succeeded
    subst succeeded
    exact .cons first (ih rest)

theorem exists_of_forall₂ {related : α → β → Prop} (pairs : List.Forall₂ related entries results)
    {result} (mem : result ∈ results) : ∃ entry ∈ entries, related entry result := by
  induction pairs with
  | nil => simp at mem
  | cons first _ ih =>
    rcases List.mem_cons.mp mem with rfl | mem
    · exact ⟨_, List.mem_cons_self, first⟩
    · obtain ⟨entry, inEntries, holds⟩ := ih mem
      exact ⟨entry, List.mem_cons_of_mem _ inEntries, holds⟩

theorem exists_of_mapM_ok (succeeded : entries.mapM step = .ok results) {result}
    (mem : result ∈ results) : ∃ entry ∈ entries, step entry = .ok result :=
  exists_of_forall₂ (forall₂_of_mapM_ok succeeded) mem

theorem exists_of_mapM_error {fault} (failed : entries.mapM step = .error fault) :
    ∃ entry ∈ entries, step entry = .error fault := by
  induction entries with
  | nil => exact absurd failed pure_ne_error
  | cons entry entries ih =>
    rw [List.mapM_cons] at failed
    rcases bind_eq_error.mp failed with first | ⟨result, -, failed⟩
    · exact ⟨entry, List.mem_cons_self, first⟩
    · rcases bind_eq_error.mp failed with rest | ⟨others, -, impossible⟩
      · obtain ⟨other, mem, failed⟩ := ih rest
        exact ⟨other, List.mem_cons_of_mem _ mem, failed⟩
      · exact absurd impossible pure_ne_error

theorem mapM_eq_pure {m : Type → Type} [Monad m] [LawfulMonad m] {step : α → m β} {result : α → β}
    (each : ∀ entry ∈ entries, step entry = pure (result entry)) :
    entries.mapM step = pure (entries.map result) := by
  induction entries with
  | nil => exact List.mapM_nil
  | cons entry rest ih =>
    obtain ⟨first, others⟩ := List.forall_mem_cons.mp each
    rw [List.mapM_cons, first, pure_bind, ih others, pure_bind, List.map_cons]

/-- An operation fails in certain ways at most. -/
def FailsOnly (allowed : ε → Prop) (out : Except ε α) : Prop :=
  ∀ fault, out = .error fault → allowed fault

namespace FailsOnly

variable {allowed wider : ε → Prop}

theorem of_ok {out : Except ε α} {value} (done : out = .ok value) : FailsOnly allowed out := by
  rintro _ rfl
  cases done

protected theorem pure (value : α) : FailsOnly allowed (pure value) :=
  of_ok rfl

theorem mono {out : Except ε α} (fails : FailsOnly allowed out)
    (imp : ∀ fault, allowed fault → wider fault) : FailsOnly wider out :=
  fun fault failed => imp fault (fails fault failed)

protected theorem bind {step} {rest : α → Except ε β} (first : FailsOnly allowed step)
    (second : ∀ value, FailsOnly allowed (rest value)) : FailsOnly allowed (step >>= rest) := by
  intro fault failed
  rcases bind_eq_error.mp failed with failed | ⟨value, -, failed⟩
  · exact first fault failed
  · exact second value fault failed

theorem mapM (each : ∀ entry ∈ entries, FailsOnly allowed (step entry)) :
    FailsOnly allowed (entries.mapM step) := by
  intro fault failed
  obtain ⟨entry, mem, failed⟩ := exists_of_mapM_error failed
  exact each entry mem fault failed

theorem forM {step : α → Except ε PUnit}
    (each : ∀ entry ∈ entries, FailsOnly allowed (step entry)) :
    FailsOnly allowed (entries.forM step) := by
  induction entries with
  | nil => exact .pure _
  | cons entry entries ih =>
    rw [List.forall_mem_cons] at each
    exact .bind each.1 fun _ => ih each.2

end FailsOnly

theorem forall₂_iff_getElem? {related : α → β → Prop} {entries others} :
    List.Forall₂ related entries others ↔ entries.length = others.length ∧
      ∀ (pos : Nat) entry other, entries[pos]? = some entry →
        others[pos]? = some other → related entry other := by
  rw [List.forall₂_iff_get]
  refine and_congr_right fun length_eq => ⟨?_, ?_⟩
  · intro pairs pos entry other found foundToo
    obtain ⟨inside, rfl⟩ := List.getElem?_eq_some_iff.mp found
    obtain ⟨insideToo, rfl⟩ := List.getElem?_eq_some_iff.mp foundToo
    exact pairs pos inside insideToo
  · intro pairs pos inside insideToo
    exact pairs pos _ _ (List.getElem?_eq_getElem inside) (List.getElem?_eq_getElem insideToo)

/-- A search among entries with different names finds the entry of a name. -/
theorem lookup_eq_some_iff_mem {κ : Type} [BEq κ] [LawfulBEq κ] {entries : List (κ × α)}
    (distinct : (entries.map Prod.fst).Nodup) {name value} :
    entries.lookup name = some value ↔ (name, value) ∈ entries := by
  induction entries with
  | nil => simp
  | cons entry entries ih =>
    obtain ⟨first, found⟩ := entry
    rw [List.map_cons, List.nodup_cons] at distinct
    rw [List.lookup_cons]
    by_cases here : name = first
    · subst here
      have absent : (name, value) ∉ entries := fun mem =>
        distinct.1 (List.mem_map.mpr ⟨_, mem, rfl⟩)
      simp [absent, eq_comm]
    · have differs : (name == first) = false := by simpa using here
      rw [differs]
      simp [here, ih distinct.2]

end StructWasm
