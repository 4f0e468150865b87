import CBackend.Proofs.Flow.World
import CBackend.Proofs.Lowering.Runs
import Mathlib.Data.Set.Basic

/-!
# Local variables of results

The local variables that the results of lowering mention. The C expression of a value, of its address or of one of its
members mentions what the value mentions.
-/

namespace CBackend

open IR
open C (CType Precedence)

/-- The local variables that a result of lowering mentions. -/
class Mentions (α : Type) where
  locals : α → List Nat

namespace Mentions

instance : Mentions C.Expr := ⟨C.Expr.locals⟩
instance : Mentions Value := ⟨fun v => v.content.elim [] (·.expr.locals)⟩
instance : Mentions PUnit := ⟨fun _ => []⟩
instance : Mentions Bool := ⟨fun _ => []⟩
instance : Mentions Nat := ⟨fun _ => []⟩
instance : Mentions CType := ⟨fun _ => []⟩
instance : Mentions C.Name := ⟨fun n => (C.Expr.name n).locals⟩
instance : Mentions C.ArrayShape := ⟨fun _ => []⟩
instance : Mentions Ty := ⟨fun _ => []⟩

variable {α β : Type} [Mentions α] [Mentions β]

instance : Mentions (Option α) := ⟨fun a => a.elim [] locals⟩
instance : Mentions (List α) := ⟨fun as => as.flatMap locals⟩
instance : Mentions (α × β) := ⟨fun p => locals p.1 ++ locals p.2⟩

end Mentions

/-- A result mentions only local variables of a set. -/
def Within {α : Type} [Mentions α] (S : Set Nat) (a : α) : Prop :=
  ∀ n ∈ Mentions.locals a, n ∈ S

namespace Within

variable {α β : Type} [Mentions α] [Mentions β] {S T : Set Nat} {a : α} {b : β} {as : List α}

theorem of_subset (h : Within S a) (hsub : Mentions.locals b ⊆ Mentions.locals a) : Within S b :=
  fun n hn => h n (hsub hn)

theorem of_nil (h : Mentions.locals a = []) : Within S a :=
  fun n hn => by rw [h] at hn; cases hn

theorem fst (h : Within S (a, b)) : Within S a :=
  h.of_subset (List.subset_append_left _ _)

theorem snd (h : Within S (a, b)) : Within S b :=
  h.of_subset (List.subset_append_right _ _)

theorem prod (ha : Within S a) (hb : Within S b) : Within S (a, b) :=
  fun n hn => (List.mem_append.1 hn).elim (ha n) (hb n)

theorem of_mem (h : Within S as) (ha : a ∈ as) : Within S a :=
  fun n hn => h n (List.mem_flatMap.2 ⟨a, ha, hn⟩)

theorem list (h : ∀ a ∈ as, Within S a) : Within S as := by
  intro n hn
  obtain ⟨a, ha, hn⟩ := List.mem_flatMap.1 hn
  exact h a ha n hn

theorem cons (ha : Within S a) (has : Within S as) : Within S (a :: as) :=
  fun n hn => (List.mem_append.1 hn).elim (ha n) (has n)

/-! ### Expressions of values -/

variable {v w : Value} {e : C.Expr}

theorem of_inner (hv : Within S v) (h : v.inner = .ok e) : Within S e := by
  unfold Value.inner at h
  split at h
  · next c hc =>
    cases h
    refine hv.of_subset ?_
    simp [Mentions.locals, hc]
  · cases h

theorem parenIf {b : Bool} (h : Within S e) : Within S (C.Expr.parenIf b e) := by
  cases b <;> exact h

theorem of_render (hv : Within S v) (h : v.render = .ok e) : Within S e := by
  obtain ⟨inner, hinner, heq⟩ := exists_of_bind_eq_ok h
  cases heq
  split
  · exact (hv.of_inner hinner).parenIf
  · exact hv.of_inner hinner

theorem of_renderParen {b : Bool} (hv : Within S v) (h : v.renderParen b = .ok e) : Within S e := by
  obtain ⟨inner, hinner, heq⟩ := exists_of_bind_eq_ok h
  cases heq
  exact (hv.of_render hinner).parenIf

theorem of_binary {op : String} {p : Precedence} (hv : Within S v) (hw : Within S w)
    (h : v.binary op w p = .ok e) : Within S e := by
  unfold Value.binary at h
  split at h
  · cases h
  · obtain ⟨lhs, hlhs, h⟩ := exists_of_bind_eq_ok h
    obtain ⟨rhs, hrhs, heq⟩ := exists_of_bind_eq_ok h
    cases heq
    exact (hv.of_renderParen hlhs).prod (hw.of_renderParen hrhs)

theorem of_address (hv : Within S v) (h : v.address = .ok e) : Within S e := by
  unfold Value.address at h
  split at h
  · cases h
  · split at h
    · exact hv.of_inner h
    · obtain ⟨inner, hinner, heq⟩ := exists_of_bind_eq_ok h
      cases heq
      exact (hv.of_renderParen hinner : Within S inner)

theorem of_member {field : C.Field} (hv : Within S v) (h : v.member field = .ok e) : Within S e := by
  obtain ⟨inner, hinner, heq⟩ := exists_of_bind_eq_ok h
  cases heq
  have hbase := (hv.of_inner hinner).parenIf (b := v.precedence.looser .suffix)
  split <;> exact hbase

/-- An expression in parts. -/
theorem expr_list {es : List C.Expr} (h : Within S es) : ∀ n ∈ C.Expr.localsEach es, n ∈ S := by
  induction es with
  | nil => exact h
  | cons e es ih =>
    intro n hn
    obtain hn | hn := List.mem_append.1 hn
    · exact h.of_mem List.mem_cons_self n hn
    · exact ih (h.of_subset (List.subset_append_right _ _)) n hn

end Within

end CBackend
