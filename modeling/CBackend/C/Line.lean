import CBackend.C.Expr

/-!
# Lines of a function body

The body of a C function as a sequence of lines. A block is opened and closed by lines of their own,
and the indentation of a line is the number of blocks that are open before it.
-/

namespace CBackend.C

/-- A line of a function body. -/
inductive Line
  /-- `T v_n;` or `T v_n = e;` -/
  | declare (ty : CType) (n : Nat) (init : Option Expr)
  /-- `e;` -/
  | expression (e : Expr)
  | ifThen (condition : Expr)
  | elseIf (condition : Expr)
  | otherwise
  | whileLoop (condition : Expr)
  | switchOn (e : Expr)
  | caseLabel (e : Expr)
  | defaultLabel
  | openBlock
  | closeBlock
  | breakOut
  | continueLoop
  | returnWith (e : Option Expr)
  | goto (label : Nat)
  /-- A label; the empty statement after it keeps it valid at the end of a block. -/
  | label (n : Nat)
  /-- Marks a point that control never reaches. -/
  | unreachable
  | abort
  /-- Text from outside, written as it is. -/
  | verbatim (text : String)

namespace Line

/-- The spelling of a label. -/
def labelSpelling (n : Nat) : String :=
  s!"l_{n}"

/-- The text of a line without its indentation. -/
def print (types : TypeTable) : Line → String
  | declare ty n none => types.render ty ++ " " ++ (Name.localVar n).spelling ++ ";"
  | declare ty n (some e) =>
    types.render ty ++ " " ++ (Name.localVar n).spelling ++ " = " ++ e.print types ++ ";"
  | expression e => e.print types ++ ";"
  | ifThen c => "if (" ++ c.print types ++ ")"
  | elseIf c => "else if (" ++ c.print types ++ ")"
  | otherwise => "else"
  | whileLoop c => "while (" ++ c.print types ++ ")"
  | switchOn e => "switch (" ++ e.print types ++ ")"
  | caseLabel e => "case " ++ e.print types ++ ":"
  | defaultLabel => "default:"
  | openBlock => "\x7b"
  | closeBlock => "\x7d"
  | breakOut => "break;"
  | continueLoop => "continue;"
  | returnWith none => "return;"
  | returnWith (some e) => "return " ++ e.print types ++ ";"
  | goto n => "goto " ++ labelSpelling n ++ ";"
  | label n => labelSpelling n ++ ":;"
  | unreachable => "__builtin_unreachable();"
  | abort => "abort();"
  | verbatim text => text

/-- The number of open blocks at which a line stands, given the number before it. -/
def depthAt (depth : Nat) : Line → Nat
  | closeBlock => depth - 1
  | _ => depth

/-- The number of open blocks after a line, given the number before it. -/
def depthAfter (depth : Nat) : Line → Nat
  | openBlock => depth + 1
  | closeBlock => depth - 1
  | _ => depth

/-- The text of lines that start with the given number of open blocks. -/
def printFrom (types : TypeTable) (indentation : String) : Nat → List Line → String
  | _, [] => ""
  | depth, l :: ls =>
    String.join (List.replicate (l.depthAt depth) indentation) ++ l.print types ++ "\n" ++
      printFrom types indentation (l.depthAfter depth) ls

/-- The text of a function body, inside the braces of the function. -/
def printBody (types : TypeTable) (indentation : String) (lines : List Line) : String :=
  printFrom types indentation 1 lines

end Line

end CBackend.C
