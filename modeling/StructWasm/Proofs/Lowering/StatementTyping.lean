import StructWasm.Proofs.Lowering.Constructs
import StructWasm.Proofs.Lowering.Stack

/-!
# Typing choices and results

Which addresses are held by the locals and the frame, which constants stand for literals,
what a choice leaves on the stack and what a function with a result does, and how scopes
are entered, looked up and left.
-/

namespace StructWasm.Lowering

open Wasm List

variable {work next : Workspace}

variable {type : Ty} {address : Address}

theorem within_of_allocateStruct (runs : Runs (allocateStruct type) ctx work (slot, address) next)
    (supported : Supported ctx work work.scopes) : address.Within next := by
  obtain ⟨frame, alloc, rfl, rfl⟩ := runs_allocateStruct.mp runs
  refine ⟨supported.framePointer.1, supported.framePointer.2, ?_⟩
  intro number named
  unfold addressOf at named
  dsimp only at named
  split at named
  · cases named
  · rename_i hasBytes
    injection named with named
    subst named
    exact Frame.Allocator.hasBytes_allocate alloc (Nat.pos_of_ne_zero hasBytes)

theorem Address.Within.advance (within : address.Within work)
    (advanced : address.advance bytes = .ok further) : further.Within work := by
  obtain ⟨offset, added, advanced⟩ := bind_eq_ok.mp advanced
  obtain rfl := pure_eq_ok.mp advanced
  refine ⟨within.base, within.base_type, fun number named => ?_⟩
  rw [base?_plus added] at named
  exact within.offset number named

theorem type_literalConstant (numeric : type.isNumeric = true)
    (literal : literalConstant value type = .ok constant) : constant.type = type.valType := by
  cases type with
  | i32 | i64 | f32 =>
    obtain ⟨_, -, same⟩ := bind_eq_ok.mp literal
    obtain rfl := pure_eq_ok.mp same
    rfl
  | f64 =>
    injection literal with same
    subst same
    rfl
  | bool => simp [Ty.isNumeric, Ty.isInteger, Ty.isFloat] at numeric
  | struct name => simp [Ty.isNumeric, Ty.isInteger, Ty.isFloat] at numeric

theorem signature_binaryOp? (found : binaryOp? op operand = some (instr, result)) :
    instr.signature = ([operand.valType, operand.valType], result.valType) := by
  unfold binaryOp? at found
  split at found
  · obtain ⟨chosen, chosen_eq, same⟩ := Option.map_eq_some_iff.mp found
    obtain ⟨rfl, rfl⟩ := Prod.mk.inj same
    cases op <;> cases operand <;> simp [comparisonOp?] at chosen_eq <;> subst chosen_eq <;> rfl
  · obtain ⟨chosen, chosen_eq, same⟩ := Option.map_eq_some_iff.mp found
    obtain ⟨rfl, rfl⟩ := Prod.mk.inj same
    cases op <;> cases operand <;> simp [arithmeticOp?] at chosen_eq <;> subst chosen_eq <;> rfl

/-! ## Choices -/

variable {span : Span}

theorem leaves_of_joinValues (runs : Runs (joinValues first second span) ctx work value next)
    (around : Surroundings codeRefs) (code : Code) :
    (CodeLeaves around code first → CodeLeaves around code value) ∧
      (CodeLeaves around code second → CodeLeaves around code value) := by
  have never : ∀ {value : Value}, CodeLeaves around code .never → CodeLeaves around code value :=
    fun leaves labels before after _ => leaves labels before after trivial
  unfold joinValues at runs
  split at runs
  · obtain ⟨rfl, -⟩ := runs.pure
    exact ⟨never, id⟩
  · obtain ⟨rfl, -⟩ := runs.pure
    exact ⟨id, never⟩
  · split at runs
    · rename_i same
      obtain ⟨rfl, -⟩ := runs.pure
      rw [same]
      exact ⟨id, id⟩
    · exact runs.fail
  · split at runs
    · obtain ⟨rfl, -⟩ := runs.pure
      exact ⟨id, fun leaves => leaves⟩
    · exact runs.fail
  · obtain ⟨rfl, -⟩ := runs.pure
    exact ⟨id, id⟩
  · exact runs.fail

theorem leaves_blockTypeOf (value : Value) : value.Leaves [] (blockTypeOf value).results := by
  cases value with
  | scalar type => rfl
  | struct held => rfl
  | nothing => rfl
  | never => trivial

namespace Typing

/-- A choice leaves what its arms leave. -/
theorem choice {cond thenCode elseCode first second decided thenStart elseStart joining joined span}
    (conditionTyping : Typing ctx work decided cond (.scalar .bool))
    (thenTyping : Typing ctx thenStart next thenCode first)
    (elseTyping : Typing ctx elseStart next elseCode second) (grows : Grows decided next)
    (joins : Runs (joinValues first second span) ctx joining value joined) : Typing ctx work next
      (cond ++ .ifElse (blockTypeOf value) thenCode elseCode ::
        (if value.isNever then [.unreachable] else [])) value := by
  refine ⟨thenTyping.supported, conditionTyping.grows.trans grows, ?_, ?_⟩
  · rcases (eq_of_joinValues joins).1 with rfl | rfl
    · exact thenTyping.within
    · exact elseTyping.within
  · intro around covers labels before after left
    have decides := conditionTyping.leaves (covers.of_grows grows) labels before _ rfl
    have thenLeaves := (leaves_of_joinValues joins around thenCode).1 (thenTyping.leaves covers)
    have elseLeaves := (leaves_of_joinValues joins around elseCode).2 (elseTyping.leaves covers)
    refine decides.append (.cons (.ifElse (thenLeaves _ _ _ (leaves_blockTypeOf value))
      (elseLeaves _ _ _ (leaves_blockTypeOf value))) ?_)
    cases value with
    | scalar type =>
      obtain rfl := left
      exact .nil
    | struct held =>
      obtain rfl := left
      exact .nil
    | nothing =>
      obtain rfl := left
      exact .nil
    | never => exact .singleton .unreachable

end Typing

variable {binding : Binding}

/-! ## Results -/

/-- What a function that gives back what is planned leaves on the stack. -/
def ResultPlan.left : ResultPlan → Value
  | .scalar type => .scalar type
  | _ => .nothing

theorem ResultPlan.leaves_left (plan : ResultPlan) (before : StackType) :
    plan.left.Leaves before (plan.valTypes.reverse ++ before) := by
  cases plan with
  | nothing => rfl
  | scalar type => rfl
  | struct type place => rfl

theorem ResultPlan.within_left (plan : ResultPlan) (work : Workspace) : plan.left.Within work := by
  cases plan <;> trivial

/-! ## Scopes -/

theorem grows_of_releaseBinding (runs : Runs (releaseBinding binding) ctx work result next) :
    Grows work next ∧ next.scopes = work.scopes := by
  unfold releaseBinding at runs
  split at runs
  · split at runs
    · obtain ⟨-, rfl⟩ := runs.pure
      exact ⟨.refl _, rfl⟩
    · obtain ⟨locals, freed, rfl⟩ := runs_freeLocal.mp runs
      exact ⟨⟨LocalPool.free_spec freed, fun _ mem => mem, .refl _⟩, rfl⟩
  · split at runs
    · obtain ⟨-, rfl⟩ := runs.pure
      exact ⟨.refl _, rfl⟩
    · have calm := isCalm_release _ runs
      exact ⟨calm.grows, calm.scopes_eq⟩

theorem grows_of_popScope (runs : Runs popScope ctx work result next) :
    Grows work next ∧ next.scopes = work.scopes.tail := by
  unfold popScope at runs
  replace runs := runs_get_bind.mp runs
  obtain ⟨_, mid, sets, runs⟩ := runs.bind
  have kept : Grows mid next ∧ next.scopes = mid.scopes := by
    clear sets
    generalize work.scopes.headD [] = scope at runs
    induction scope generalizing mid with
    | nil =>
      obtain ⟨-, rfl⟩ := runs.pure
      exact ⟨.refl _, rfl⟩
    | cons entry rest ih =>
      unfold List.forM at runs
      obtain ⟨_, last, releases, runs⟩ := runs.bind
      obtain ⟨grows, scopes_eq⟩ := grows_of_releaseBinding releases
      obtain ⟨growsMore, scopesMore_eq⟩ := ih last runs
      exact ⟨grows.trans growsMore, scopesMore_eq.trans scopes_eq⟩
  obtain rfl := runs_set.mp sets
  exact ⟨⟨kept.1.locals, kept.1.requests, kept.1.frame⟩, kept.2⟩

end StructWasm.Lowering
