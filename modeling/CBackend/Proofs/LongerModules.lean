import CBackend.Lowering.Nesting
import CBackend.Proofs.Lowering.Runs
import Mathlib.Data.List.Forall2

/-!
# Modules with more entries

A module is extended by entries at the end of its tables. Positions of the module mean the same in the longer one,
and a look-up that finds something there finds it again. A computation that uses the longer tables therefore has
every result that it has with the shorter ones; where it had a fault, it may now have a result.

## Main definitions

* `IR.Module.ExtendedBy` : a module with entries appended to its tables.
* `Below` : every result of one computation is one of another.
-/

namespace CBackend

open IR

variable {α β : Type} {m m' : Module}

/-! ### Modules -/

/-- The second module has the entries of the first one and more at the end of its tables. It starts from the same
globals, kept functions and entry. -/
structure IR.Module.ExtendedBy (m m' : Module) : Prop where
  exprs : m.exprs.toList <+: m'.exprs.toList
  stmts : m.stmts.toList <+: m'.stmts.toList
  vars : m.vars.toList <+: m'.vars.toList
  functions : m.functions.toList <+: m'.functions.toList
  aggregates : m.aggregates.toList <+: m'.aggregates.toList
  globals : m'.globals = m.globals
  roots : m'.roots = m.roots
  entry : m'.entry = m.entry

/-- A position of a table means the same in a longer one. -/
theorem getElem?_of_isPrefix {xs ys : Array α} (h : xs.toList <+: ys.toList) {i : Nat} {a : α} (ha : xs[i]? = some a) :
    ys[i]? = some a := by
  rw [← Array.getElem?_toList] at ha ⊢
  obtain ⟨rest, hrest⟩ := h
  rw [← hrest, List.getElem?_append_left (List.getElem?_eq_some_iff.1 ha).1]
  exact ha

namespace IR.Module.ExtendedBy

theorem refl (m : Module) : m.ExtendedBy m :=
  ⟨List.prefix_rfl, List.prefix_rfl, List.prefix_rfl, List.prefix_rfl, List.prefix_rfl, rfl, rfl, rfl⟩

section

variable (hm : m.ExtendedBy m')

include hm

theorem expr? {id : ExprId} {e : Expr} (h : m.expr? id = some e) : m'.expr? id = some e :=
  getElem?_of_isPrefix hm.exprs h

theorem stmt? {id : StmtId} {s : Stmt} (h : m.stmt? id = some s) : m'.stmt? id = some s :=
  getElem?_of_isPrefix hm.stmts h

theorem var? {id : VarId} {decl : VarDecl} (h : m.var? id = some decl) : m'.var? id = some decl :=
  getElem?_of_isPrefix hm.vars h

theorem function? {id : FuncId} {f : Function} (h : m.function? id = some f) : m'.function? id = some f :=
  getElem?_of_isPrefix hm.functions h

theorem aggregate? {id : AggregateId} {a : Aggregate} (h : m.aggregate? id = some a) : m'.aggregate? id = some a :=
  getElem?_of_isPrefix hm.aggregates h

theorem paramTypes? {f : Function} {tys : List Ty} (h : m.paramTypes? f = some tys) : m'.paramTypes? f = some tys := by
  unfold Module.paramTypes? at h ⊢
  generalize f.params = params at h ⊢
  induction params generalizing tys with
  | nil => exact h
  | cons x xs ih =>
    simp only [List.mapM_cons, bind, Option.bind_eq_some_iff, Option.map_eq_some_iff] at h ⊢
    obtain ⟨ty, ⟨decl, hdecl, rfl⟩, tys', htys', h⟩ := h
    exact ⟨_, ⟨decl, hm.var? hdecl, rfl⟩, tys', ih htys', h⟩

end

mutual

theorem hasTrait? (hm : m.ExtendedBy m') {t : ValueTrait} {b : Bool} : ∀ {ty : Ty},
    m.hasTrait? t ty = some b → m'.hasTrait? t ty = some b
  | .aggregate id, h => by
    unfold Module.hasTrait? at h ⊢
    obtain ⟨a, ha, hb⟩ := Option.map_eq_some_iff.1 h
    exact Option.map_eq_some_iff.2 ⟨a, hm.aggregate? ha, hb⟩
  | .optional _, h | .array .., h => by
    unfold Module.hasTrait? at h ⊢
    exact hm.hasTrait? h
  | .tuple _, h => by
    unfold Module.hasTrait? at h ⊢
    exact hm.allHaveTrait? h
  | .void, h | .builtin _, h | .str, h | .enum _, h | .pointer .., h | .reference .., h | .moveReference _, h
  | .slice .., h | .function .., h => by
    unfold Module.hasTrait? at h ⊢
    exact h

theorem allHaveTrait? (hm : m.ExtendedBy m') {t : ValueTrait} {b : Bool} : ∀ {tys : List Ty},
    m.allHaveTrait? t tys = some b → m'.allHaveTrait? t tys = some b
  | [], h => by
    unfold Module.allHaveTrait? at h ⊢
    exact h
  | _ :: _, h => by
    unfold Module.allHaveTrait? at h ⊢
    obtain ⟨c, hc, h⟩ := Option.bind_eq_some_iff.1 h
    refine Option.bind_eq_some_iff.2 ⟨c, hm.hasTrait? hc, ?_⟩
    cases c with
    | false => exact h
    | true => exact hm.allHaveTrait? h

end

end IR.Module.ExtendedBy

/-! ### Bounds -/

theorem IR.Ty.sizeEach_append (tys tys' : List Ty) : Ty.sizeEach (tys ++ tys') = Ty.sizeEach tys + Ty.sizeEach tys' := by
  induction tys with
  | nil => simp [Ty.sizeEach]
  | cons ty tys ih => simp [Ty.sizeEach, ih, Nat.add_assoc]

theorem IR.Ty.sizeEach_le_of_isPrefix {tys tys' : List Ty} (h : tys <+: tys') : Ty.sizeEach tys ≤ Ty.sizeEach tys' := by
  obtain ⟨rest, rfl⟩ := h
  rw [Ty.sizeEach_append]
  exact Nat.le_add_right ..

theorem IR.Module.ExtendedBy.typeLevels_le (hm : m.ExtendedBy m') : Lowering.typeLevels m ≤ Lowering.typeLevels m' := by
  have hexprs := Ty.sizeEach_le_of_isPrefix (hm.exprs.map (·.ty))
  have hvars := Ty.sizeEach_le_of_isPrefix (hm.vars.map (·.ty))
  have hresults := Ty.sizeEach_le_of_isPrefix (hm.functions.map (·.result))
  have hmembers : Ty.sizeEach (m.aggregates.toList.flatMap (·.members)) ≤
      Ty.sizeEach (m'.aggregates.toList.flatMap (·.members)) := by
    obtain ⟨rest, hrest⟩ := hm.aggregates
    rw [← hrest, List.flatMap_append, Ty.sizeEach_append]
    exact Nat.le_add_right ..
  unfold Lowering.typeLevels
  omega

/-- Nodes may be nested deeper in a longer module. -/
theorem IR.Module.ExtendedBy.nestingBound_le (hm : m.ExtendedBy m') :
    Lowering.nestingBound m ≤ Lowering.nestingBound m' := by
  have hnodes : Lowering.nodeCount m ≤ Lowering.nodeCount m' := by
    have hexprs := hm.exprs.length_le
    have hstmts := hm.stmts.length_le
    have hvars := hm.vars.length_le
    simp only [Array.length_toList] at hexprs hstmts hvars
    unfold Lowering.nodeCount
    omega
  exact Nat.mul_le_mul (Nat.mul_le_mul (Nat.mul_le_mul (Nat.mul_le_mul_left 2 hnodes) hnodes) hnodes) hm.typeLevels_le

/-! ### Computations with the same results -/

/-- Every result of the first computation is one of the second. -/
def Below (x y : Except Fault α) : Prop :=
  ∀ a, x = .ok a → y = .ok a

theorem forall₂_zip {α β γ : Type} {R : α → β → Prop} {P : β → Prop} {l : List α} {l' : List β}
    (h : List.Forall₂ R l l') (hP : ∀ b ∈ l', P b) (ps : List γ) :
    List.Forall₂ (fun x y => R x.1 y.1 ∧ x.2 = y.2 ∧ P y.1) (l.zip ps) (l'.zip ps) := by
  induction h generalizing ps with
  | nil => exact .nil
  | cons hab _ ih =>
    cases ps with
    | nil => exact .nil
    | cons p ps => exact .cons ⟨hab, rfl, hP _ List.mem_cons_self⟩ (ih (fun b hb => hP b (List.mem_cons_of_mem _ hb)) ps)

end CBackend
