import CBackend.C.CType

/-!
# Targets

The sizes of C's integer types on the machine that will compile the output. They decide which C type
stands for a source integer of a given size.
-/

namespace CBackend

/-- The sizes of C's integer types and of pointers, in bytes. -/
structure Target where
  short : Nat
  int : Nat
  long : Nat
  longLong : Nat
  pointer : Nat
  deriving DecidableEq, Repr

/-- Why no implementation of C can have the given sizes. -/
inductive TargetError
  | tooSmall (name : String) (size least : Nat)
  | misordered (smaller : String) (smallerSize : Nat) (larger : String) (largerSize : Nat)
  | pointerSize (size : Nat)
  deriving DecidableEq, Repr

/-- The text of an error. -/
def TargetError.message : TargetError → String
  | tooSmall name size least => s!"`{name}` is {size} bytes, but must be at least {least}"
  | misordered smaller smallerSize larger largerSize =>
    s!"`{larger}` ({largerSize} bytes) is smaller than `{smaller}` ({smallerSize} bytes)"
  | pointerSize size => s!"pointer size {size} is not 4 or 8 bytes"

namespace Target

/-- 64-bit systems on which `long` has 64 bits. -/
def lp64 : Target := ⟨2, 4, 8, 8, 8⟩

/-- 64-bit systems on which only `long long` has 64 bits. -/
def llp64 : Target := ⟨2, 4, 4, 8, 8⟩

/-- 32-bit systems. -/
def ilp32 : Target := ⟨2, 4, 4, 8, 4⟩

/-- The integer types from the smallest to the largest: name, size and guaranteed size. -/
def integers (t : Target) : List (String × Nat × Nat) :=
  [("short", t.short, 2), ("int", t.int, 2), ("long", t.long, 4), ("long long", t.longLong, 8)]

/-- The first type below its guaranteed size. -/
def firstTooSmall? : List (String × Nat × Nat) → Option TargetError
  | [] => none
  | (name, size, least) :: rest =>
    if size < least then some (.tooSmall name size least) else firstTooSmall? rest

/-- The first type that is smaller than the one before it. -/
def firstMisordered? : List (String × Nat × Nat) → Option TargetError
  | (smaller, smallerSize, _) :: (larger, largerSize, least) :: rest =>
    if largerSize < smallerSize then some (.misordered smaller smallerSize larger largerSize)
    else firstMisordered? ((larger, largerSize, least) :: rest)
  | _ => none

/-- Checks the guaranteed sizes, then the order of the types, then the pointer size. -/
def validate (t : Target) : Except TargetError Unit :=
  match firstTooSmall? t.integers with
  | some error => .error error
  | none =>
    match firstMisordered? t.integers with
    | some error => .error error
    | none => if t.pointer = 4 || t.pointer = 8 then .ok () else .error (.pointerSize t.pointer)

/-- The sizes of C's integer types with their signed and unsigned forms, smallest type first. -/
def candidates (t : Target) : List (Nat × C.Scalar × C.Scalar) :=
  [(1, .signedChar, .unsignedChar), (t.short, .short, .unsignedShort), (t.int, .int, .unsignedInt),
    (t.long, .long, .unsignedLong), (t.longLong, .longLong, .unsignedLongLong)]

/-- The first C integer type of a size. -/
def integerOfSize? (t : Target) (size : Nat) (signed : Bool) : Option C.Scalar :=
  (t.candidates.find? (·.1 == size)).map fun (_, s, u) => if signed then s else u

end Target

/-- What a run of the generator is given besides the module. -/
structure Options where
  target : Target := .lp64
  /-- One level of indentation in function bodies. -/
  indentation : String := "\t"

/-- The options for a target that passes `Target.validate`. -/
def Options.ofTarget (t : Target) : Except TargetError Options := do
  t.validate
  pure { target := t }

end CBackend
