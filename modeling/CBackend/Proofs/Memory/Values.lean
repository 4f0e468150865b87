import CBackend.Proofs.Lowering.Runs
import CBackend.Proofs.Memory.Execution

/-!
# Values that denote places

The lowered values whose expressions denote storage, and what the lines do that lowering makes from them. A value
may denote a place only as long as some other storage keeps its content: an element of an array through its
index, the target of a pointer through the pointer.
-/

namespace CBackend

open Memory

variable {σ τ : Store} {p q : Location} {v w : Value} {e : C.Expr} {x : Denoted} {level : C.Precedence} {i n : Nat}
  {ty : C.CType}

namespace Value

/-- What a value denotes. -/
def Denotes (v : Value) (σ : Store) (x : Denoted) : Prop :=
  ∃ e, v.render = .ok e ∧ eval σ e = some x

/-- A value denotes a place. -/
def Designates (v : Value) (σ : Store) (p : Location) : Prop :=
  v.Denotes σ (.place p)

/-- A value designates a place as long as only the given places and local variables from `n` on change. -/
def Fixed (v : Value) (n : Nat) (ps : List Location) (p : Location) (σ : Store) : Prop :=
  ∀ τ, ChangesOnly n ps σ τ → v.Designates τ p

/-- A value is a local variable. -/
def IsLocal (v : Value) (n : Nat) : Prop :=
  ∀ σ, v.Designates σ (.ofLocal n)

/-- A value designates a part of what another one designates. -/
def IsPart (v' v : Value) (path : List Selector) : Prop :=
  ∀ σ p, v.Designates σ p → v'.Designates σ (p.extend path)

end Value

/-! ### Expressions of values -/

@[simp]
theorem Memory.eval_nat (σ : Store) (k : Nat) : eval σ (.nat k) = some (.data fun _ => .number k) :=
  rfl

@[simp]
theorem Memory.Denoted.datum_data (σ : Store) (v : Tree) : (Denoted.data v).datum σ = v [] :=
  rfl

theorem Value.exists_of_renderParen {b : Bool} (h : v.renderParen b = .ok e) :
    ∃ e', v.render = .ok e' ∧ e = .parenIf b e' := by
  obtain ⟨e', he', h⟩ := exists_of_bind_eq_ok h
  cases h
  exact ⟨e', he', rfl⟩

theorem Value.exists_of_binary {op : String} (h : v.binary op w level = .ok e) :
    ∃ a b pa pb, v.render = .ok a ∧ w.render = .ok b ∧ e = .binary op (.parenIf pa a) (.parenIf pb b) := by
  unfold Value.binary at h
  split at h
  · cases h
  · obtain ⟨lhs, hlhs, h⟩ := exists_of_bind_eq_ok h
    obtain ⟨rhs, hrhs, h⟩ := exists_of_bind_eq_ok h
    obtain ⟨a, ha, rfl⟩ := exists_of_renderParen hlhs
    obtain ⟨b, hb, rfl⟩ := exists_of_renderParen hrhs
    cases h
    exact ⟨a, b, _, _, ha, hb, rfl⟩

namespace Value.Denotes

theorem eval_eq (h : v.Denotes σ x) (he : v.render = .ok e) : eval σ e = some x := by
  obtain ⟨e', he', hx⟩ := h
  cases he.symm.trans he'
  exact hx

theorem eval_renderParen {b : Bool} (h : v.Denotes σ x) (he : v.renderParen b = .ok e) :
    eval σ e = some x := by
  obtain ⟨e', he', rfl⟩ := exists_of_renderParen he
  simpa using h.eval_eq he'

theorem unique {y : Denoted} (h : v.Denotes σ x) (h' : v.Denotes σ y) : x = y := by
  obtain ⟨e, he, hx⟩ := h
  exact Option.some.inj (hx.symm.trans (h'.eval_eq he))

end Value.Denotes

/-- A value is held through a pointer to its place, or its expression denotes the place. -/
theorem Value.Designates.inner_cases (h : v.Designates σ p) :
    ∃ e x, v.inner = .ok e ∧ eval σ e = some x ∧
      (v.flags.isIndirect = true ∧ x.target? σ = some p ∨ v.flags.isIndirect = false ∧ x = .place p) := by
  obtain ⟨e, he, hx⟩ := h
  obtain ⟨e', he', h⟩ := exists_of_bind_eq_ok he
  cases h
  cases hi : v.flags.isIndirect with
  | false =>
    simp only [hi] at hx
    exact ⟨e', .place p, he', hx, .inr ⟨rfl, rfl⟩⟩
  | true =>
    simp only [hi, if_true, eval, eval_parenIf, bind, Option.bind_eq_some_iff] at hx
    obtain ⟨x, hx, p', hp', h⟩ := hx
    cases h
    exact ⟨e', x, he', hx, .inl ⟨rfl, hp'⟩⟩

theorem Memory.Denoted.datum_of_target? (h : x.target? σ = some p) : x.datum σ = .address p := by
  unfold Denoted.target? at h
  split at h <;> cases h
  assumption

/-- The address of a value is that of its place. -/
theorem Value.Designates.address (h : v.Designates σ p) (he : v.address = .ok e) :
    ∃ x, eval σ e = some x ∧ x.datum σ = .address p := by
  obtain ⟨e', x, he', hx, hcase⟩ := h.inner_cases
  unfold Value.address at he
  split at he
  · cases he
  · rcases hcase with ⟨hi, ht⟩ | ⟨hi, rfl⟩
    · rw [if_pos hi] at he
      cases he.symm.trans he'
      exact ⟨x, hx, Denoted.datum_of_target? ht⟩
    · rw [if_neg (by simp [hi])] at he
      obtain ⟨a, ha, he⟩ := exists_of_bind_eq_ok he
      cases he
      refine ⟨.data fun _ => .address p, ?_, rfl⟩
      simp [eval, h.eval_renderParen ha, Denoted.address?]

/-- A member of a value is the member of its place. -/
theorem Value.Designates.member {f : C.Field} (h : v.Designates σ p) (he : v.member f = .ok e) :
    eval σ e = some (.place (p.extend [.field f])) := by
  obtain ⟨e', x, he', hx, hcase⟩ := h.inner_cases
  obtain ⟨a, ha, he⟩ := exists_of_bind_eq_ok he
  cases ha.symm.trans he'
  cases he
  rcases hcase with ⟨hi, ht⟩ | ⟨hi, rfl⟩
  · simp [hi, eval, hx, ht]
  · simp [hi, eval, hx, Denoted.select]

/-- The element of a wrapped array at an index. -/
theorem Value.Designates.element {a : C.Expr} {y : Denoted} (h : v.Designates σ p) (ha : v.member .elements = .ok a)
    (he : eval σ e = some y) (hy : y.datum σ = .number i) :
    eval σ (.index a e) = some (.place (p.item i)) := by
  have harray : (p.extend [.field .elements]).isArray = true := by simp [Location.isArray, Location.extend]
  have htarget : (Denoted.place (p.extend [.field .elements])).target? σ = some (p.item 0) := by
    simp [Denoted.target?, Denoted.datum, Denoted.tree, harray]
  have hshift : (p.item 0).shift? i = some (p.item i) := by
    simp [Location.shift?, Location.extend]
  simp [eval, h.member ha, he, hy, htarget, hshift]

namespace Value.Fixed

variable {n n' : Nat} {ps ps' : List Location} {v' : Value} {path : List Selector}

theorem designates (h : v.Fixed n ps p σ) : v.Designates σ p :=
  h σ (.refl n ps σ)

/-- Later, and as long as less changes, a value still designates its place. -/
theorem later (h : v.Fixed n ps p σ) (hτ : ChangesOnly n ps σ τ) (hn : n ≤ n')
    (hps : ∀ r ∈ ps', ∃ s ∈ ps, s.Holds r) : v.Fixed n' ps' p τ :=
  fun υ hυ => h υ (hτ.trans (hυ.mono hn hps))

theorem part (h : v.Fixed n ps p σ) (hv : v'.IsPart v path) : v'.Fixed n ps (p.extend path) σ :=
  fun υ hυ => hv υ p (h υ hυ)

end Value.Fixed

/-! ### Lines -/

namespace Memory

variable {limit : Nat}

theorem Denoted.tree_place (hp : p.isArray = false) : (Denoted.place p).tree σ = σ.read p := by
  simp [Denoted.tree, hp]

/-- An assignment writes what the right value denotes to the place of the left one. -/
theorem assign_effect (hv : v.Designates σ p) (hw : w.Denotes σ x) (he : v.binary "=" w level = .ok e) :
    stepEffect limit σ (.line (.expression e)) = some (σ.write p (x.tree σ)) := by
  obtain ⟨a, b, pa, pb, ha, hb, rfl⟩ := Value.exists_of_binary he
  simp [stepEffect, lineEffect, assign?, hv.eval_eq ha, hw.eval_eq hb, Denoted.place?]

/-- A declaration writes what the initialiser denotes to the variable. -/
theorem declare_effect (he : eval σ e = some x) :
    stepEffect limit σ (.line (.declare ty n (some e))) = some (σ.write (.ofLocal n) (x.tree σ)) := by
  simp [stepEffect, lineEffect, he]

theorem Runs.assign (hv : v.Designates σ p) (hw : w.Designates σ q) (hq : q.isArray = false)
    (he : v.binary "=" w level = .ok e) :
    Runs limit false [.line (.expression e)] σ (σ.write p (σ.read q)) := by
  refine .step rfl ?_
  rw [assign_effect hv hw he, Denoted.tree_place hq]

theorem Runs.declare (hv : v.Designates σ p) (hp : p.isArray = false) (he : v.asInitializer = .ok e) :
    Runs limit false [.line (.declare ty n (some e))] σ (σ.write (.ofLocal n) (σ.read p)) := by
  refine .step rfl ?_
  rw [declare_effect (hv.eval_renderParen he), Denoted.tree_place hp]

theorem Runs.declareNat {k : Nat} :
    Runs limit false [.line (.declare ty n (some (.nat k)))] σ (σ.write (.ofLocal n) fun _ => .number k) :=
  .step rfl (declare_effect (eval_nat σ k))

theorem isTrue_truthValue (b : Bool) : ((truthValue b).datum σ).isTrue = b := by
  cases b <;> rfl

theorem holds?_of_eval {d : Datum} (he : eval σ e = some x) (hd : x.datum σ = d) :
    holds? σ e = some d.isTrue := by
  simp [holds?, he, hd]

/-- The comparison of two addresses tells whether the places are different. -/
theorem holds?_distinct {a b : C.Expr} (hv : v.Designates σ p) (hw : w.Designates σ q)
    (ha : v.address = .ok a) (hb : w.address = .ok b) :
    holds? σ (.binary "!=" a b) = some (decide (p ≠ q)) := by
  obtain ⟨x, hx, hp⟩ := hv.address ha
  obtain ⟨y, hy, hq⟩ := hw.address hb
  have heval : eval σ (.binary "!=" a b) = some (truthValue (Datum.address p != .address q)) := by
    simp [eval, hx, hy, hp, hq, operate?]
  rw [holds?_of_eval heval rfl, isTrue_truthValue]
  by_cases h : p = q <;> simp [h]

/-- The condition of a loop over the indices below a bound. -/
theorem holds?_index {j size : Nat} (hj : σ (.ofLocal j) = .number i) :
    holds? σ (.binary "<" (.name (.localVar j)) (.nat size)) = some (decide (i < size)) := by
  have hdatum : (Denoted.place ⟨.named (.localVar j), []⟩).datum σ = .number i := by
    rw [← hj]
    exact Store.read_nil σ (.ofLocal j)
  have hless : operate? "<" (.number i) (.number size) = some (truthValue (decide ((i : Int) < size))) := rfl
  have heval : eval σ (.binary "<" (.name (.localVar j)) (.nat size)) = some (truthValue (decide (i < size))) := by
    simpa [eval, hdatum] using hless
  rw [holds?_of_eval heval rfl, isTrue_truthValue]

/-- The next index of a loop whose bound the counter can reach. -/
theorem Runs.increment {j : Nat} (hj : σ (.ofLocal j) = .number i) (hi : i + 1 < limit) :
    Runs limit false [.line (.expression (.before "++" (.name (.localVar j))))] σ
      (σ.write (.ofLocal j) fun _ => .number (i + 1 : Nat)) := by
  have hj' : σ ⟨.named (.localVar j), []⟩ = .number i := hj
  have hmod : ((i : Int) + 1) % limit = (i + 1 : Nat) := Int.emod_eq_of_lt (by omega) (by omega)
  refine .step rfl ?_
  simp [stepEffect, lineEffect, increment?, eval, Denoted.place?, hj', hmod, Location.ofLocal]

end Memory

end CBackend
