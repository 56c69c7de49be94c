import StructWasm.Proofs.Compile.FrameFaults

/-!
# The order of functions does not matter

What comes of a function depends on the signatures of the others, which are found by name.
So two programs with the same functions reach the same ones, note the same mistakes and
give their functions the same bodies.
-/

namespace StructWasm

open List Module Lowering Diagnostic.Batch

theorem lookup_eq_of_perm {α : Type} {entries others : List (String × α)}
    (perm : entries.Perm others) (distinct : (entries.map Prod.fst).Nodup) (name : String) :
    entries.lookup name = others.lookup name := by
  have otherDistinct := (perm.map Prod.fst).nodup_iff.mp distinct
  refine Option.ext fun value => ?_
  rw [lookup_eq_some_iff_mem distinct, lookup_eq_some_iff_mem otherDistinct, perm.mem_iff]

namespace Wasm

end Wasm

namespace Compile

open Wasm Progress

/-! ## Compilations with the same functions -/

theorem lowerFunction_congr {config layouts table other}
    (same : ∀ name, table.lookup name = other.lookup name) (decl : FunctionDecl) (sig : Signature) :
    lowerFunction config layouts table decl sig =
      lowerFunction config layouts other decl sig := by
  unfold lowerFunction
  rw [funext same]

/-- Two compilations in which nothing is reached yet, with the same functions in some order. -/
structure Reordered (base other : Progress) : Prop where
  lookup_eq : ∀ name, base.signatures.lookup name = other.signatures.lookup name
  pending : base.pending.Perm other.pending
  mod_eq : base.mod = other.mod

namespace Reordered

variable {setup : Setting} {base other : Progress}
variable {decls others : List FunctionDecl}

variable (reordered : Reordered base other)
include reordered

theorem symm : Reordered other base :=
  ⟨fun name => (reordered.lookup_eq name).symm, reordered.pending.symm, reordered.mod_eq.symm⟩

theorem outcome_eq (entry : Pending) : outcomeOf setup base entry = outcomeOf setup other entry :=
  lowerFunction_congr reordered.lookup_eq _ _

section

variable (perm : decls.Perm others)
include perm

theorem roots_perm : (rootsOf base decls).Perm (rootsOf other others) := by
  rw [rootsOf, reordered.mod_eq]
  exact (perm.map _).filter _

theorem reachable (reachable : Reachable setup base (rootsOf base decls) entry) :
    Reachable setup other (rootsOf other others) entry := by
  induction reachable with
  | root waits isRoot =>
    exact .root (reordered.pending.subset waits) ((reordered.roots_perm perm).subset isRoot)
  | called _ waits asked ih =>
    rw [reordered.outcome_eq] at asked
    exact .called ih (reordered.pending.subset waits) asked

end

end Reordered

/-! ## Programs with the same functions -/

section

variable {config : Config} {setup : Setting} {program : Program}
variable {mod : Module Lowering.Body} {functions : List FunctionDecl}

/-- The functions of a program have names of their own. -/
structure Apart (program : Program) : Prop where
  distinct : (namesOf program.functions).Nodup
  notImported : ∀ decl ∈ program.functions, ∀ binding ∈ program.imports,
    decl.name.name ≠ binding.name.name

section

variable (apart : Apart program)
include apart

theorem Apart.unmixed (created : newModule config = .ok mod) : Unmixed setup program mod := by
  obtain ⟨admitted, mistakes, admits⟩ :=
    exists_admitted_of_newModule setup created program.imports
  refine ⟨fun decl mem => ?_, apart.distinct⟩
  rw [Progress.isDeclared, Option.isSome_eq_false_iff, Option.isNone_iff_eq_none,
    admits.signatures_eq, lookup_eq_none_iff, forall_mem_map]
  intro binding isAdmitted
  simpa using apart.notImported decl mem binding (admits.sublist.subset isAdmitted)

section

variable (perm : program.functions.Perm functions)
include perm

theorem Apart.lookup_eq (front : List (String × Option Signature)) (name : String) :
    (front ++ program.functions.map fun decl =>
        (decl.name.name, declaredSignature? setup decl)).lookup name =
      (front ++ functions.map fun decl =>
        (decl.name.name, declaredSignature? setup decl)).lookup name := by
  rw [lookup_append, lookup_append, lookup_eq_of_perm (perm.map _)]
  rw [map_map]
  exact apart.distinct

end

end

end

/-! ## Writing -/

/-- The code of a body, when functions have certain indices. -/
def encodeBody (functionIndex : String → Except Fault Nat) (body : Lowering.Body) :
    Except Fault Bytes :=
  body.encode functionIndex fun .stackPointer => 0

theorem write_eq (config : Config) (prog : Progress) :
    write config prog = prog.mod.binary (encodeBody (functionIndex prog)) >>= fun binary => pure
        { binary, sourceMap := prog.mod.completeSourceMap?.getD (.empty config.sourceName) } :=
  rfl

theorem Lowers.unique (lowers : Lowers setup program decl sig body)
    (other : Lowers setup program decl otherSignature otherBody) : body = otherBody := by
  obtain rfl := Option.some.inj (lowers.signed.symm.trans other.signed)
  exact Except.ok.inj (lowers.lowered.symm.trans other.lowered)

section

variable {config : Config} {setup : Setting} {program : Program} {prog : Progress}
variable {emitted : List FunctionDecl}

end

/-! ## Verdicts -/

/-- A compilation that has noted mistakes is refused. -/
def accept (prog : Progress) : Except Fault Progress :=
  if prog.errors.hasErrors then .error (.diagnostics prog.errors) else .ok prog

section

variable {config : Config} {program : Program} {functions : List FunctionDecl}

section

variable {setup : Setting} {emitted others : List FunctionDecl} {prog other : Progress}

variable (assembled : Assembled setup program emitted prog)
include assembled

variable (otherAssembled : Assembled setup { program with functions } others other)
include otherAssembled

end

end

theorem Emits.length_eq {contents}
    (emits : Emits setup program emitted contents) : emitted.length = contents.code.length := by
  rw [emits.functions.length_eq, length_zip, emits.sameLength, Nat.min_self]

end Compile
end StructWasm
