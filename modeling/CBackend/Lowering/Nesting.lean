import CBackend.C.PointerChain
import CBackend.IR.Module

/-!
# How deep lowering goes

Nodes refer to each other by position, so a node may lie below itself. Lowering still ends if
something changes between two passes through such a node, and the module tells how often that can
happen.

* An exit runs the cleanups that are waiting, and one of them may contain the exit. Cleanups that
  are being run inside each other are all different.
* The storage that a node is to fill, the elements that are bound and the variables may have other
  types from pass to pass. From one pass to the next each of these types loses a level, as when the
  members of a tuple are built by the node that builds the tuple, or gains a pointer level. The
  types run out of levels, and a chain of pointers has a largest length.

A module in which lowering goes deeper than that repeats itself, and its lowering has no end.
-/

namespace CBackend.Lowering

open IR

/-- The nodes of a module and the two ends of a path through them. -/
def nodeCount (m : Module) : Nat :=
  m.exprs.size + m.stmts.size + m.vars.size + 2

/-- The levels of all types of a module, with those that pointers to them and the parts of a string
can add. -/
def typeLevels (m : Module) : Nat :=
  Ty.sizeEach (m.exprs.toList.map (·.ty)) + Ty.sizeEach (m.vars.toList.map (·.ty)) +
    Ty.sizeEach (m.functions.toList.map (·.result)) +
    Ty.sizeEach (m.aggregates.toList.flatMap (·.members)) + C.PointerChain.maxDepth + 2

/-- A depth that only lowering without an end exceeds. Between two changes of a type a path goes
through every node at most twice, before and after control has left, for each of the cleanups that
are being run. The types that change belong to no more things than there are nodes, and each of
them changes at most once for each level. -/
def nestingBound (m : Module) : Nat :=
  2 * nodeCount m * nodeCount m * nodeCount m * typeLevels m

end CBackend.Lowering
