/-!
# Pointer chains

The pointer levels of a C type, packed into one word. The low six bits hold the number of levels.
Bit `6 + i` is set when level `i` points to read-only storage, where level `0` is the innermost
pointer. A chain has at most `PointerChain.maxDepth` levels.
-/

namespace CBackend.C

/-- One level of indirection. -/
inductive PointerLevel
  /-- `T *` -/
  | plain
  /-- `T const *`: what the pointer points to is read-only. -/
  | readOnly
  deriving DecidableEq, Repr

/-- A stack of pointer levels in one word. -/
structure PointerChain where
  word : UInt64
  deriving DecidableEq, Repr

namespace PointerChain

/-- The chain without levels. -/
def empty : PointerChain := ⟨0⟩

/-- The largest number of levels. -/
def maxDepth : Nat := 58

/-- The number of levels. -/
def depth (c : PointerChain) : Nat :=
  (c.word &&& 0x3f).toNat

/-- Whether the chain has no levels. -/
def isEmpty (c : PointerChain) : Bool :=
  c.depth == 0

/-- The bit of a level. -/
def mask (level : Nat) : UInt64 :=
  1 <<< UInt64.ofNat (6 + level)

/-- The level at a depth, counted from the innermost. -/
def level (c : PointerChain) (i : Nat) : PointerLevel :=
  if c.word &&& mask i = 0 then .plain else .readOnly

/-- The chain with one more outermost level, unless it is full. -/
def push? (c : PointerChain) (l : PointerLevel) : Option PointerChain :=
  if maxDepth ≤ c.depth then none
  else
    match l with
    | .plain => some ⟨c.word + 1⟩
    | .readOnly => some ⟨(c.word ||| mask c.depth) + 1⟩

/-- The outermost level and the chain without it, unless the chain is empty. -/
def pop? (c : PointerChain) : Option (PointerLevel × PointerChain) :=
  match c.depth with
  | 0 => none
  | n + 1 => some (c.level n, ⟨(c.word &&& ~~~mask n) - 1⟩)

/-- The outermost level. -/
def top? (c : PointerChain) : Option PointerLevel :=
  match c.depth with
  | 0 => none
  | n + 1 => some (c.level n)

/-- The levels from the innermost to the outermost. -/
def levels (c : PointerChain) : List PointerLevel :=
  (List.range c.depth).map c.level

end PointerChain

end CBackend.C
