import StructWasm.Binary64
import StructWasm.Span

/-!
# Programs

The syntax of the source language: structure declarations, imported functions,
and functions whose bodies are blocks of statements with an optional tail
expression. Every node knows its span.
-/

namespace StructWasm

/-- A name and the place where it is written. -/
structure Ident where
  name : String
  span : Span
  deriving DecidableEq, Repr

/-- A type as it is written. -/
inductive WrittenType where
  | i32
  | i64
  | f32
  | f64
  | bool
  | named (name : String)
  deriving DecidableEq, Repr

/-- A written type and its place. -/
structure TypeNote where
  type : WrittenType
  span : Span
  deriving DecidableEq, Repr

/-- A binary operator. -/
inductive BinaryOp where
  | or
  | and
  | equal
  | notEqual
  | less
  | greater
  | lessEqual
  | greaterEqual
  | add
  | subtract
  | multiply
  | divide
  | remainder
  deriving DecidableEq, Repr

namespace BinaryOp

def all : List BinaryOp :=
  [or, and, equal, notEqual, less, greater, lessEqual, greaterEqual, add, subtract,
    multiply, divide, remainder]

def symbol : BinaryOp → String
  | or => "or"
  | and => "and"
  | equal => "=="
  | notEqual => "!="
  | less => "<"
  | greater => ">"
  | lessEqual => "<="
  | greaterEqual => ">="
  | add => "+"
  | subtract => "-"
  | multiply => "*"
  | divide => "/"
  | remainder => "%"

def ofSymbol? (symbol : String) : Option BinaryOp :=
  all.find? fun op => op.symbol == symbol

def isComparison : BinaryOp → Bool
  | equal => true
  | notEqual => true
  | less => true
  | greater => true
  | lessEqual => true
  | greaterEqual => true
  | _ => false

end BinaryOp

mutual
/-- An expression. -/
inductive Expr where
  | number (span : Span) (value : Binary64)
  | bool (span : Span) (value : Bool)
  | literal (span : Span) (name : Ident) (fields : List FieldInit)
  | var (span : Span) (name : String)
  | call (span : Span) (name : Ident) (arguments : List Expr)
  | field (span : Span) (object : Expr) (field : Ident)
  | binary (span : Span) (left : Expr) (op : BinaryOp) (right : Expr)
  | negate (span : Span) (operand : Expr)
  | not (span : Span) (operand : Expr)
  | choice (span : Span) (choice : Choice)
  | block (span : Span) (block : Block)
  | parens (span : Span) (inner : Expr)

/-- The value of a field in a structure literal. -/
structure FieldInit where
  name : Ident
  value : Expr

/-- A choice between two blocks by a condition. -/
structure Choice where
  condition : Expr
  thenBlock : Block
  otherwise : Option Alternative
  span : Span

/-- What to do when the condition of a choice does not hold. -/
inductive Alternative where
  | block (block : Block)
  | choice (choice : Choice)

/-- Statements followed by an optional expression whose value is that of the
block. -/
structure Block where
  statements : List Stmt
  tail : Option Expr
  span : Span

/-- A statement. -/
inductive Stmt where
  /-- Declare a variable. A structure may be declared without a value; its fields
  are then assigned one by one. -/
  | declare
      (span : Span)
      (name : Ident)
      (type : Option TypeNote)
      (value : Option Expr)
  | assign (span : Span) (target : List Ident) (value : Expr)
  | loop (span : Span) (condition : Expr) (body : Block)
  | leave (span : Span) (value : Option Expr)
  | evaluate (span : Span) (value : Expr)
end

def Expr.span : Expr → Span
  | .number span _ => span
  | .bool span _ => span
  | .literal span _ _ => span
  | .var span _ => span
  | .call span _ _ => span
  | .field span _ _ => span
  | .binary span _ _ _ => span
  | .negate span _ => span
  | .not span _ => span
  | .choice span _ => span
  | .block span _ => span
  | .parens span _ => span

/-- A field of a structure declaration, or a parameter of a function. -/
structure TypedName where
  name : Ident
  type : TypeNote
  span : Span
  deriving DecidableEq, Repr

/-- A structure declaration. -/
structure StructDecl where
  name : Ident
  fields : List TypedName
  span : Span
  deriving DecidableEq, Repr

/-- A function provided by the host. -/
structure ImportDecl where
  moduleName : String
  fieldName : String
  name : Ident
  params : List TypeNote
  result : Option TypeNote
  span : Span
  deriving DecidableEq, Repr

/-- A function of the program. -/
structure FunctionDecl where
  name : Ident
  params : List TypedName
  result : Option TypeNote
  body : Block
  exported : Bool
  span : Span

/-- A whole program. -/
structure Program where
  structs : List StructDecl
  imports : List ImportDecl
  functions : List FunctionDecl
  span : Span

end StructWasm
