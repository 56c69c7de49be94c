import StructWasm.Lowering.Workspace
import StructWasm.Proofs.Outcome

/-!
# Runs of lowering steps

A step of lowering either ends with a value in a new state or stops with a fault.
A step that is made of others is taken apart: it ends if its parts end one after
the other, and it stops if one of its parts stops after those before it ended.
-/

namespace StructWasm.Lowering

variable {α β : Type} {ctx : Context} {work next : Workspace} {fault : Fault}

/-- A step ends with a value and leaves a state. -/
def Runs (step : Emit α) (ctx : Context) (work : Workspace) (value : α) (next : Workspace) : Prop :=
  (step.run ctx).run work = .ok value next

/-- A step stops with a fault. -/
def Stops (step : Emit α) (ctx : Context) (work : Workspace) (fault : Fault) : Prop :=
  ∃ next, (step.run ctx).run work = .error fault next

variable {step : Emit α} {after : Workspace}

theorem Runs.not_stops (runs : Runs step ctx work value next) : ¬Stops step ctx work fault := by
  rintro ⟨stopped, stops⟩
  have same := runs.symm.trans stops
  injection same

theorem Stops.unique (stops : Stops step ctx work fault)
    (stopsToo : Stops step ctx work other) : fault = other := by
  obtain ⟨_, result⟩ := stops
  obtain ⟨_, sameResult⟩ := stopsToo
  have same := result.symm.trans sameResult
  injection same

/-! ## Ends -/

theorem runs_iff_of_ok (ended : (step.run ctx).run work = .ok value after) :
    Runs step ctx work result next ↔ value = result ∧ after = next := by
  unfold Runs
  rw [ended]
  constructor
  · intro same
    injection same with valueSame workSame
    exact ⟨valueSame, workSame⟩
  · rintro ⟨rfl, rfl⟩
    rfl

theorem not_runs_of_error (stopped : (step.run ctx).run work = .error fault after) :
    ¬Runs step ctx work result next := by
  unfold Runs
  rw [stopped]
  intro same
  injection same

@[simp] theorem runs_pure {value result : α} :
    Runs (pure value) ctx work result next ↔ value = result ∧ work = next :=
  runs_iff_of_ok rfl

theorem runs_pure_pair {first result : α} {second more : β} :
    Runs (pure (first, second)) ctx work (result, more) next ↔
      (first = result ∧ second = more) ∧ work = next := by
  rw [runs_pure, Prod.mk.injEq]

@[simp] theorem runs_bind {rest : α → Emit β} :
    Runs (step >>= rest) ctx work result next ↔ ∃ value mid, Runs step ctx work value mid ∧
        Runs (rest value) ctx mid result next := by
  constructor
  · intro runs
    change EStateM.bind (step.run ctx) _ work = _ at runs
    unfold EStateM.bind at runs
    split at runs
    · rename_i value mid ended
      exact ⟨value, mid, ended, runs⟩
    · cases runs
  · rintro ⟨value, mid, first, second⟩
    change EStateM.bind (step.run ctx) _ work = _
    unfold EStateM.bind
    rw [show step.run ctx work = .ok value mid from first]
    exact second

theorem Runs.bind {rest : α → Emit β} (runs : Runs (step >>= rest) ctx work result next) :
    ∃ value mid, Runs step ctx work value mid ∧ Runs (rest value) ctx mid result next :=
  runs_bind.mp runs

theorem Runs.pure {value result : α} (runs : Runs (Pure.pure value) ctx work result next) :
    value = result ∧ work = next :=
  runs_pure.mp runs

theorem Runs.pair {first result : α} {second more : β}
    (runs : Runs (Pure.pure (first, second)) ctx work (result, more) next) :
    (first = result ∧ second = more) ∧ work = next :=
  runs_pure_pair.mp runs

theorem Runs.bindPure {step : Emit α} {change : α → β}
    (runs : Runs (step >>= fun value => Pure.pure (change value)) ctx work result next) :
    ∃ value, Runs step ctx work value next ∧ change value = result := by
  obtain ⟨value, _, steps, runs⟩ := runs.bind
  obtain ⟨rfl, rfl⟩ := runs.pure
  exact ⟨value, steps, rfl⟩

theorem Runs.bindPair {γ : Type} {step : Emit α} {first : α → β} {second : α → γ} {result more}
    (runs : Runs (step >>= fun value => Pure.pure (first value, second value)) ctx work
      (result, more) next) :
    ∃ value, Runs step ctx work value next ∧ first value = result ∧ second value = more := by
  obtain ⟨value, steps, pair_eq⟩ := runs.bindPure
  exact ⟨value, steps, Prod.mk.inj pair_eq⟩

@[simp] theorem runs_map {step : Emit α} {change : α → β} {result : β} :
    Runs (change <$> step) ctx work result next ↔
      ∃ value, Runs step ctx work value next ∧ change value = result := by
  rw [map_eq_pure_bind]
  simp only [runs_bind, runs_pure]
  constructor
  · rintro ⟨value, mid, runs, rfl, rfl⟩
    exact ⟨value, runs, rfl⟩
  · rintro ⟨value, runs, rfl⟩
    exact ⟨value, next, runs, rfl, rfl⟩

@[simp] theorem runs_read : Runs read ctx work result next ↔ ctx = result ∧ work = next :=
  runs_iff_of_ok rfl

@[simp] theorem runs_get : Runs get ctx work result next ↔ work = result ∧ work = next :=
  runs_iff_of_ok rfl

theorem runs_read_bind {rest : Context → Emit α} :
    Runs (read >>= rest) ctx work result next ↔ Runs (rest ctx) ctx work result next :=
  Iff.rfl

theorem runs_get_bind {rest : Workspace → Emit α} :
    Runs (get >>= rest) ctx work result next ↔ Runs (rest work) ctx work result next :=
  Iff.rfl

@[simp] theorem runs_set : Runs (set after) ctx work result next ↔ after = next := by
  have ended : ((set after : Emit PUnit).run ctx).run work = .ok ⟨⟩ after := rfl
  rw [runs_iff_of_ok ended]
  exact and_iff_right rfl

@[simp] theorem runs_modify {change : Workspace → Workspace} :
    Runs (modify change) ctx work result next ↔ change work = next := by
  have ended : ((modify change : Emit PUnit).run ctx).run work = .ok ⟨⟩ (change work) := rfl
  rw [runs_iff_of_ok ended]
  exact and_iff_right rfl

@[simp] theorem not_runs_throw {result : α} : ¬Runs (throw fault) ctx work result next :=
  not_runs_of_error rfl

@[simp] theorem not_runs_fail {mistake : Mistake} {span : Span} {result : α} :
    ¬Runs (fail mistake span) ctx work result next :=
  not_runs_of_error rfl

theorem Runs.fail {mistake : Mistake} {span : Span} {result : α} {conclusion : Prop}
    (runs : Runs (Lowering.fail mistake span) ctx work result next) : conclusion :=
  absurd runs not_runs_fail

@[simp] theorem runs_check {out : Except Fault α} {result : α} :
    Runs (check out) ctx work result next ↔ out = .ok result ∧ work = next := by
  cases out with
  | ok value => simp [check]
  | error fault => simp [check]

/-! ## Stops -/

theorem stops_iff_of_error (stopped : (step.run ctx).run work = .error cause after) :
    Stops step ctx work fault ↔ cause = fault := by
  constructor
  · rintro ⟨next, stops⟩
    have same := stopped.symm.trans stops
    injection same
  · rintro rfl
    exact ⟨after, stopped⟩

theorem not_stops_of_ok (ended : (step.run ctx).run work = .ok value next) :
    ¬Stops step ctx work fault :=
  Runs.not_stops ended

@[simp] theorem not_stops_pure {value : α} : ¬Stops (pure value) ctx work fault :=
  not_stops_of_ok rfl

@[simp] theorem stops_bind {rest : α → Emit β} : Stops (step >>= rest) ctx work fault ↔
      Stops step ctx work fault ∨ ∃ value mid, Runs step ctx work value mid ∧
          Stops (rest value) ctx mid fault := by
  constructor
  · rintro ⟨next, stops⟩
    change EStateM.bind (step.run ctx) _ work = _ at stops
    unfold EStateM.bind at stops
    split at stops
    · rename_i value mid ended
      exact .inr ⟨value, mid, ended, next, stops⟩
    · rename_i cause after stopped
      injection stops with causeSame
      exact .inl ⟨after, causeSame ▸ stopped⟩
  · rintro (⟨next, stops⟩ | ⟨value, mid, runs, next, stops⟩)
    · refine ⟨next, ?_⟩
      change EStateM.bind (step.run ctx) _ work = _
      unfold EStateM.bind
      rw [show step.run ctx work = .error fault next from stops]
    · refine ⟨next, ?_⟩
      change EStateM.bind (step.run ctx) _ work = _
      unfold EStateM.bind
      rw [show step.run ctx work = .ok value mid from runs]
      exact stops

@[simp] theorem stops_map {step : Emit α} {change : α → β} :
    Stops (change <$> step) ctx work fault ↔ Stops step ctx work fault := by
  rw [map_eq_pure_bind]
  simp only [stops_bind, not_stops_pure, and_false, exists_false, or_false]

@[simp] theorem not_stops_read : ¬Stops read ctx work fault := not_stops_of_ok rfl

@[simp] theorem not_stops_get : ¬Stops get ctx work fault := not_stops_of_ok rfl

@[simp] theorem not_stops_set {after : Workspace} : ¬Stops (set after) ctx work fault :=
  not_stops_of_ok rfl

@[simp] theorem not_stops_modify {change : Workspace → Workspace} :
    ¬Stops (modify change) ctx work fault :=
  not_stops_of_ok rfl

@[simp] theorem stops_throw : Stops (throw cause : Emit α) ctx work fault ↔ cause = fault :=
  stops_iff_of_error rfl

theorem stops_fail : Stops (fail mistake span : Emit α) ctx work fault ↔
      .semantic [mistake.report ctx.file span] = fault :=
  stops_iff_of_error rfl

@[simp] theorem stops_check {out : Except Fault α} :
    Stops (check out) ctx work fault ↔ out = .error fault := by
  cases out with
  | ok value => simp [check]
  | error cause => simp [check]

theorem stops_get_bind {rest : Workspace → Emit β} :
    Stops (get >>= rest) ctx work fault ↔ Stops (rest work) ctx work fault :=
  .rfl

theorem stops_read_bind {rest : Context → Emit β} :
    Stops (read >>= rest) ctx work fault ↔ Stops (rest ctx) ctx work fault :=
  .rfl

end StructWasm.Lowering
