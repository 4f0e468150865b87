import CBackend.C.Line

/-!
# Compilation units

The parts of a C file in the order in which they are written: includes, forward declarations of
structs, typedefs, struct bodies, function declarations, variables, function definitions. Inside a
part the order is that of creation.
-/

namespace CBackend.C

/-- The part of a function that its declaration and its definition share. -/
structure Prototype where
  isStatic : Bool
  result : CType
  name : Name
  params : List CType
  deriving DecidableEq, Repr

/-- A variable with static storage. -/
inductive StaticVariable
  /-- The bytes of a string constant and a terminating zero. -/
  | string (n : Nat) (byteType : CType) (value : String)
  | global (n : Nat) (ty : CType) (init : Expr)

/-- A function with its body. The parameters are numbered like the local variables. -/
structure Definition where
  isStatic : Bool
  result : CType
  name : Name
  params : List (CType × Nat)
  body : List Line

/-- The parts of a C file. Types are listed by their heads; what they are stands in the table. -/
structure CompilationUnit where
  types : TypeTable := {}
  includes : Array String := #[]
  forwards : Array Head := #[]
  typedefs : Array Head := #[]
  bodies : Array Head := #[]
  prototypes : Array Prototype := #[]
  statics : Array StaticVariable := #[]
  definitions : Array Definition := #[]

/-- Items separated by commas, or `void` if there are none. -/
def paramList : List String → String
  | [] => "void"
  | items => ", ".intercalate items

/-- The text of a function's head. -/
def signatureText (types : TypeTable) (isStatic : Bool) (result : CType) (name : Name)
    (params : List String) : String :=
  (if isStatic then "static " else "") ++ types.render result ++ " " ++ name.spelling ++ "(" ++
    paramList params ++ ")"

/-- The text of a declaration. -/
def Prototype.print (types : TypeTable) (p : Prototype) : String :=
  signatureText types p.isStatic p.result p.name (p.params.map types.render) ++ ";\n"

/-- The text of a variable's definition. -/
def StaticVariable.print (types : TypeTable) : StaticVariable → String
  | string n byteType value =>
    "static " ++ types.render byteType ++ " const " ++ (Name.string n).spelling ++ "[] = \"" ++
      Text.cString value ++ "\";\n"
  | global n ty init =>
    "static " ++ types.render ty ++ " " ++ (Name.global n).spelling ++ " = " ++ init.print types ++
      ";\n"

/-- The text of a function definition. -/
def Definition.print (types : TypeTable) (indentation : String) (d : Definition) : String :=
  let params := d.params.map fun (ty, n) => types.render ty ++ " " ++ (Name.localVar n).spelling
  signatureText types d.isStatic d.result d.name params ++ "\n\x7b\n" ++
    Line.printBody types indentation d.body ++ "\x7d\n\n"

namespace CompilationUnit

variable (u : CompilationUnit)

/-- The text of an include. -/
def includeText (header : String) : String :=
  "#include <" ++ header ++ ">\n"

/-- The name of a head in the unit. -/
def headName (head : Head) : String :=
  (u.types.headName? head).getD ""

/-- The text of a forward declaration. -/
def forwardText (head : Head) : String :=
  "typedef struct " ++ u.headName head ++ " " ++ u.headName head ++ ";\n"

/-- The text of a typedef. -/
def typedefText (head : Head) : String :=
  match head with
  | .typedef n =>
    match u.types.typedefs.get? n with
    | some aliased => "typedef " ++ u.types.render aliased ++ " " ++ u.headName head ++ ";\n"
    | none => ""
  | .function n =>
    match u.types.functions.get? n with
    | some shape =>
      "typedef " ++ u.types.render shape.result ++ " (*" ++ u.headName head ++ ")(" ++
        paramList (shape.params.map u.types.render) ++ ");\n"
    | none => ""
  | _ => ""

/-- The lines of the members of a struct; C has no structs without members. -/
def memberLines : List CType → List String
  | [] => ["\tchar m_empty;\n"]
  | members => members.zipIdx.map fun (ty, i) =>
    "\t" ++ u.types.render ty ++ " " ++ (Field.member i).spelling ++ ";\n"

/-- The text of the body of a struct. -/
def structText (head : Head) (lines : List String) : String :=
  "struct " ++ u.headName head ++ "\n\x7b\n" ++ String.join lines ++ "\x7d;\n\n"

/-- The text of the body of a struct or a wrapped array. C has no arrays without elements. -/
def bodyText (head : Head) : String :=
  match head with
  | .struct n =>
    match u.types.structs.get? n with
    | some shape => u.structText head (u.memberLines shape.members)
    | none => ""
  | .array n =>
    match u.types.arrays.get? n with
    | some shape =>
      u.structText head
        ["\t" ++ u.types.render shape.elem ++ " a[" ++ toString (max shape.size 1) ++ "];\n"]
    | none => ""
  | _ => ""

/-- The parts of the file, each as a list of items. Items that end in an empty line of their own
are marked. -/
def sections (indentation : String) : List (Bool × List String) :=
  [(false, u.includes.toList.map includeText),
    (false, u.forwards.toList.map u.forwardText),
    (false, u.typedefs.toList.map u.typedefText),
    (true, u.bodies.toList.map u.bodyText),
    (false, u.prototypes.toList.map (Prototype.print u.types)),
    (false, u.statics.toList.map (StaticVariable.print u.types)),
    (true, u.definitions.toList.map (Definition.print u.types indentation))]

/-- The text of one part, ending in an empty line unless the part has no items. -/
def sectionText : Bool × List String → String
  | (_, []) => ""
  | (spaced, items) => String.join items ++ if spaced then "" else "\n"

/-- The text of the file. -/
def print (indentation : String) : String :=
  String.join ((u.sections indentation).map sectionText)

end CompilationUnit

end CBackend.C
