import StructWasm.Compile.Progress

/-!
# Declarations of functions

Imported functions are declared first, then the functions of the program. A name
can be declared once. Only primitives can be passed to and from the host.
-/

namespace StructWasm.Compile.Progress

def isDeclared (progress : Progress) (name : String) : Bool :=
  (progress.signatures.lookup name).isSome

/-- The types of a list of written types, if all are known. Every unknown one is
noted. -/
def resolveTypes (setting : Setting) :
    List TypeNote → Progress → Progress × Option (List Ty)
  | [], progress => (progress, some [])
  | written :: rest, progress =>
    match setting.layouts.resolve written.type with
    | .ok type =>
      let (progress, others) := resolveTypes setting rest progress
      (progress, others.map (type :: ·))
    | .error mistake =>
      let progress := progress.note setting mistake written.span
      ((resolveTypes setting rest progress).1, none)

def resolveSignature (setting : Setting) (params : List TypeNote)
    (result : Option TypeNote) (progress : Progress) : Progress × Option Signature :=
  let (progress, params) := resolveTypes setting params progress
  let (progress, results) := resolveTypes setting result.toList progress
  (progress, do return { params := ← params, result := (← results).head? })

def declareImport (setting : Setting) (progress : Progress) (decl : ImportDecl) :
    Progress :=
  let name := decl.name.name
  if progress.isDeclared name then
    progress.note setting (.duplicateFunction name) decl.name.span
  else
    match progress.resolveSignature setting decl.params decl.result with
    | (progress, none) => progress
    | (progress, some signature) =>
      if signature.hasStruct then
        progress.note setting (.structureAcrossBoundary .imported name) decl.span
      else
        let (mod, function) := progress.mod.importFunction decl.moduleName
          decl.fieldName signature.wasmType
        { progress with
          mod := mod.mapFunction { function, name, kind := .imported, span := decl.span }
          signatures := progress.signatures ++ [(name, some signature)]
          functions := progress.functions ++ [(name, function)] }

def noteDuplicateParams (setting : Setting) (seen : List String) :
    List TypedName → Progress → Progress
  | [], progress => progress
  | param :: rest, progress =>
    let name := param.name.name
    let progress :=
      if seen.contains name then
        progress.note setting (.duplicateParameter name) param.name.span
      else
        progress
    noteDuplicateParams setting (name :: seen) rest progress

def enter (progress : Progress) (decl : FunctionDecl) (signature? : Option Signature) :
    Progress :=
  { progress with
    signatures := progress.signatures ++ [(decl.name.name, signature?)]
    pending := progress.pending ++
      (signature?.map fun signature => { decl, signature : Pending }).toList }

/-- Declare a function. One with mistakes in its declaration has no signature, and
is never reached. -/
def declareFunction (setting : Setting) (progress : Progress) (decl : FunctionDecl) :
    Progress :=
  let name := decl.name.name
  if progress.isDeclared name then
    progress.note setting (.duplicateFunction name) decl.name.span
  else
    let names := decl.params.map fun param => param.name.name
    let progress := noteDuplicateParams setting [] decl.params progress
    let (progress, signature?) :=
      progress.resolveSignature setting (decl.params.map TypedName.type) decl.result
    let crosses := decl.exported && signature?.any Signature.hasStruct
    let progress :=
      if crosses then
        progress.note setting (.structureAcrossBoundary .exported name) decl.span
      else
        progress
    progress.enter decl (if crosses || !names.Nodup then none else signature?)

end StructWasm.Compile.Progress
