/-!
# Shapes

The shape of a value says which fields it has, and of which shape each of them
is. A value without fields is a leaf.
-/

namespace StructWasm

/-- The fields of a value, in the order of declaration. -/
inductive Shape where
  | composite (fields : List (String × Shape))
  deriving Inhabited

namespace Shape

def leaf : Shape :=
  .composite []

def fields : Shape → List (String × Shape)
  | .composite fields => fields

def isLeaf (shape : Shape) : Bool :=
  shape.fields.isEmpty

def field? (shape : Shape) (name : String) : Option Shape :=
  shape.fields.lookup name

def extendPath (path name : String) : String :=
  path ++ "." ++ name

mutual

/-- Paths of the leaves of a value at a path, in the order of declaration. -/
def leafPaths : Shape → String → List String
  | .composite fields, path =>
    if fields.isEmpty then [path] else fieldLeafPaths fields path
termination_by structural shape => shape

def fieldLeafPaths : List (String × Shape) → String → List String
  | [], _ => []
  | (name, shape) :: rest, path =>
    leafPaths shape (extendPath path name) ++ fieldLeafPaths rest path
termination_by structural fields => fields

end

end Shape
end StructWasm
