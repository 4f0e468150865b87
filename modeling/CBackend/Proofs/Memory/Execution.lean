import CBackend.Proofs.Flow.Nesting
import CBackend.Proofs.Memory.Places

/-!
# Execution of code

What the lines of a body do to a store: declarations, assignments, conditionals and loops, with the meaning that
they have in C. An expression denotes a place or data; an array that is not the operand of a selection or of `&`
becomes a pointer to its first element. Expressions and lines without a meaning here, such as calls, have no
execution.

Executions are counted, so that they are computed and end: the number bounds how many lines are executed. More
of them do not change the outcome of an execution that has one.
-/

namespace CBackend

open Flow

namespace Memory

/-! ### Expressions -/

/-- What an expression denotes. -/
inductive Denoted
  | place (p : Location)
  | data (v : Tree)

/-- The place some elements behind an element of an array. -/
def Location.shift? (p : Location) (z : Int) : Option Location :=
  match p.path.getLast? with
  | some (.element k) =>
    if 0 ≤ k + z then some ⟨p.object, p.path.dropLast ++ [.element (k + z).toNat]⟩ else none
  | _ => none

namespace Denoted

/-- The data of what is denoted. -/
def tree (σ : Store) : Denoted → Tree
  | place p => if p.isArray then fun _ => .address (p.extend [.element 0]) else σ.read p
  | data v => v

/-- The datum of what is denoted, if that has no parts. -/
def datum (σ : Store) (x : Denoted) : Datum :=
  x.tree σ []

/-- What a pointer points to. -/
def target? (σ : Store) (x : Denoted) : Option Location :=
  match x.datum σ with
  | .address p => some p
  | _ => none

/-- A part of what is denoted. -/
def select (s : Selector) : Denoted → Denoted
  | place p => place (p.extend [s])
  | data v => data fun path => v (s :: path)

/-- The address of what is denoted. -/
def address? : Denoted → Option Denoted
  | place p => some (data fun _ => .address p)
  | data _ => none

/-- The place that is denoted. -/
def place? : Denoted → Option Location
  | place p => some p
  | data _ => none

end Denoted

/-- A truth value as data. -/
def truthValue (b : Bool) : Denoted :=
  .data fun _ => .number b.toNat

/-- The result of a comparison or a conjunction. -/
def operate? (op : String) (x y : Datum) : Option Denoted :=
  if op = "!=" then some (truthValue (x != y))
  else if op = "&&" then some (truthValue (x.isTrue && y.isTrue))
  else if op = "<" then
    match x, y with
    | .number a, .number b => some (truthValue (a < b))
    | _, _ => none
  else none

/-- What an expression denotes. -/
def eval (σ : Store) : C.Expr → Option Denoted
  | .name n => some (.place ⟨.named n, []⟩)
  | .literal (.int z) => some (.data fun _ => .number z)
  | .paren e => eval σ e
  | .deref e => do pure (.place (← (← eval σ e).target? σ))
  | .addressOf e => do (← eval σ e).address?
  | .member e f => do pure ((← eval σ e).select (.field f))
  | .arrow e f => do pure (.place ((← (← eval σ e).target? σ).extend [.field f]))
  | .index e i => do
    let p ← (← eval σ e).target? σ
    match (← eval σ i).datum σ with
    | .number z => pure (.place (← p.shift? z))
    | _ => none
  | .binary op a b => do operate? op ((← eval σ a).datum σ) ((← eval σ b).datum σ)
  | _ => none

@[simp]
theorem eval_parenIf (σ : Store) (b : Bool) (e : C.Expr) : eval σ (.parenIf b e) = eval σ e := by
  cases b with
  | false => rfl
  | true => rw [C.Expr.parenIf, if_pos rfl, eval]

/-- Whether a condition holds. -/
def holds? (σ : Store) (e : C.Expr) : Option Bool := do
  pure ((← eval σ e).datum σ).isTrue

/-! ### Lines -/

/-- The assignment of what one expression denotes to the place that another one denotes. -/
def assign? (σ : Store) (lhs rhs : C.Expr) : Option Store := do
  let p ← (← eval σ lhs).place?
  pure (σ.write p ((← eval σ rhs).tree σ))

/-- The increment of a counter, which goes back to zero at a limit. -/
def increment? (limit : Nat) (σ : Store) (e : C.Expr) : Option Store := do
  let p ← (← eval σ e).place?
  match σ p with
  | .number z => pure (σ.write p fun _ => .number ((z + 1) % limit))
  | _ => none

/-- What a line does that control simply passes. -/
def lineEffect (limit : Nat) (σ : Store) : C.Line → Option Store
  | .declare _ _ none => some σ
  | .declare _ n (some e) => do pure (σ.write (.ofLocal n) ((← eval σ e).tree σ))
  | .expression (.binary op lhs rhs) => if op = "=" then assign? σ lhs rhs else none
  | .expression (.before op e) => if op = "++" then increment? limit σ e else none
  | _ => none

/-- What a step does that control simply passes. A note does nothing. -/
def stepEffect (limit : Nat) (σ : Store) : Step → Option Store
  | .line l => lineEffect limit σ l
  | .note _ => some σ

/-- The execution of steps, given that of the steps after the first one. The flag tells whether a branch of the
conditional before the steps has been executed. -/
def execWith (limit : Nat) (run : Bool → List Step → Store → Option Store) :
    Bool → List Step → Store → Option Store
  | _, [], σ => some σ
  | _, .line (.ifThen e) :: .line .openBlock :: r, σ => do
    let (c, r') ← splitBlock 0 r
    if ← holds? σ e then run true r' (← run false c σ) else run false r' σ
  | taken, .line (.elseIf e) :: .line .openBlock :: r, σ => do
    let (c, r') ← splitBlock 0 r
    if taken then run true r' σ
    else if ← holds? σ e then run true r' (← run false c σ)
    else run false r' σ
  | taken, .line .otherwise :: .line .openBlock :: r, σ => do
    let (c, r') ← splitBlock 0 r
    if taken then run false r' σ else run false r' (← run false c σ)
  | _, .line (.whileLoop e) :: .line .openBlock :: r, σ => do
    let (c, r') ← splitBlock 0 r
    if ← holds? σ e then run false (.line (.whileLoop e) :: .line .openBlock :: r) (← run false c σ)
    else run false r' σ
  | _, s :: r, σ => do run false r (← stepEffect limit σ s)

/-- The execution of steps, of which at most a number are executed one after the other. -/
def exec (limit : Nat) : Nat → Bool → List Step → Store → Option Store
  | 0 => fun _ _ _ => none
  | n + 1 => execWith limit (exec limit n)

/-- The steps lead from one store to another one. -/
def Executes (limit : Nat) (taken : Bool) (S : List Step) (σ τ : Store) : Prop :=
  ∃ n, exec limit n taken S σ = some τ

/-! ### More steps -/

variable {limit : Nat} {run run' : Bool → List Step → Store → Option Store} {taken : Bool}
  {S S' c r : List Step} {σ τ υ : Store} {e : C.Expr}

/-- One way to execute steps goes at least as far as another one. -/
def Extends (run run' : Bool → List Step → Store → Option Store) : Prop :=
  ∀ taken S σ τ, run taken S σ = some τ → run' taken S σ = some τ

theorem Extends.bind {t t' : Bool} (h : Extends run run')
    (hc : ((run t c σ).bind fun υ => run t' r υ) = some τ) : ((run' t c σ).bind fun υ => run' t' r υ) = some τ := by
  obtain ⟨υ, hc, hr⟩ := Option.bind_eq_some_iff.1 hc
  rw [h _ _ _ _ hc]
  exact h _ _ _ _ hr

theorem execWith_extends (h : Extends run run') : Extends (execWith limit run) (execWith limit run') := by
  intro taken S σ τ hS
  unfold execWith at hS ⊢
  split at hS
  · exact hS
  all_goals simp only [bind, Option.bind_eq_some_iff, Prod.exists] at hS ⊢
  · obtain ⟨c, r', hr, b, hb, hS⟩ := hS
    refine ⟨c, r', hr, b, hb, ?_⟩
    cases b
    · exact h _ _ _ _ hS
    · exact h.bind hS
  · obtain ⟨c, r', hr, hS⟩ := hS
    refine ⟨c, r', hr, ?_⟩
    cases taken
    · obtain ⟨b, hb, hS⟩ := Option.bind_eq_some_iff.1 hS
      refine Option.bind_eq_some_iff.2 ⟨b, hb, ?_⟩
      cases b
      · exact h _ _ _ _ hS
      · exact h.bind hS
    · exact h _ _ _ _ hS
  · obtain ⟨c, r', hr, hS⟩ := hS
    refine ⟨c, r', hr, ?_⟩
    cases taken
    · exact h.bind hS
    · exact h _ _ _ _ hS
  · obtain ⟨c, r', hr, b, hb, hS⟩ := hS
    refine ⟨c, r', hr, b, hb, ?_⟩
    cases b
    · exact h _ _ _ _ hS
    · exact h.bind hS
  · obtain ⟨υ, hs, hS⟩ := hS
    exact ⟨υ, hs, h _ _ _ _ hS⟩

theorem exec_mono {n n' : Nat} (hn : n ≤ n') : Extends (exec limit n) (exec limit n') := by
  induction n generalizing n' with
  | zero =>
    intro _ _ _ _ h
    cases h
  | succ n ih =>
    obtain ⟨k, rfl⟩ : ∃ k, n' = k + 1 := ⟨n' - 1, by omega⟩
    exact execWith_extends (ih (by omega))

/-! ### Code before other code -/

theorem execWith_of_not_startsElse (h : ¬ StartsElse S) :
    execWith limit run true S = execWith limit run false S := by
  funext σ
  unfold execWith
  split <;> first | rfl | exact absurd rfl h

/-- Whether a branch has been executed matters to an `else` only. -/
theorem Executes.of_not_startsElse (hS : ¬ StartsElse S) (h : Executes limit false S σ τ) :
    Executes limit taken S σ τ := by
  obtain ⟨n, h⟩ := h
  cases taken with
  | false => exact ⟨n, h⟩
  | true =>
    cases n with
    | zero => cases h
    | succ n => exact ⟨n + 1, by rw [exec, execWith_of_not_startsElse hS]; exact h⟩

/-- The execution of a step and of what comes after it, with one bound for both. -/
theorem Executes.seq {t t' : Bool} (h : Executes limit t c σ υ) (h' : Executes limit t' r υ τ) :
    ∃ n, ((exec limit n t c σ).bind fun υ => exec limit n t' r υ) = some τ := by
  obtain ⟨n, h⟩ := h
  obtain ⟨n', h'⟩ := h'
  refine ⟨max n n', Option.bind_eq_some_iff.2 ⟨υ, ?_, ?_⟩⟩
  · exact exec_mono (Nat.le_max_left n n') _ _ _ _ h
  · exact exec_mono (Nat.le_max_right n n') _ _ _ _ h'

/-- The steps lead from one store to another one, whatever comes after them, if it does not go on with a
conditional of theirs. -/
def Runs (limit : Nat) (taken : Bool) (S : List Step) (σ τ : Store) : Prop :=
  ∀ K υ, ¬ StartsElse K → Executes limit false K τ υ → Executes limit taken (S ++ K) σ υ

/-- The steps of a loop. -/
def whileSteps (e : C.Expr) (c : List Step) : List Step :=
  .line (.whileLoop e) :: .line .openBlock :: (c ++ [.line .closeBlock])

namespace Runs

theorem executes (h : Runs limit taken S σ τ) : Executes limit taken S σ τ := by
  have hnil : Executes limit false [] τ τ := ⟨1, rfl⟩
  simpa using h [] τ id hnil

theorem nil : Runs limit taken [] σ σ :=
  fun _ _ hK h => h.of_not_startsElse hK

theorem append (h : Runs limit taken S σ υ) (h' : Runs limit false S' υ τ) (hS' : ¬ StartsElse S') :
    Runs limit taken (S ++ S') σ τ := by
  intro K ω hK hω
  rw [List.append_assoc]
  exact h _ _ (not_startsElse_append hS' hK) (h' K ω hK hω)

theorem step {s : Step} (hs : s.isComplete = true) (h : stepEffect limit σ s = some τ) :
    Runs limit taken [s] σ τ := by
  intro K υ _ hK
  obtain ⟨n, hK⟩ := hK
  refine ⟨n + 1, ?_⟩
  have hexec : execWith limit (exec limit n) taken (s :: K) σ =
      (stepEffect limit σ s).bind fun τ => exec limit n false K τ := by
    cases s with
    | note _ => rfl
    | line l => cases l <;> first | rfl | cases hs
  change execWith limit (exec limit n) taken (s :: K) σ = _
  rw [hexec, h]
  exact hK

/-! ### Conditionals -/

theorem ifTrue (hc : Nested c) (he : holds? σ e = some true) (h : Runs limit false c σ υ)
    (hr : Runs limit true r υ τ) :
    Runs limit taken (.line (.ifThen e) :: .line .openBlock :: (c ++ .line .closeBlock :: r)) σ τ := by
  intro K ω hK hω
  obtain ⟨n, hn⟩ := h.executes.seq (hr K ω hK hω)
  refine ⟨n + 1, ?_⟩
  simp only [exec, execWith, List.cons_append, List.append_assoc, hc.splitBlock_close, he, bind, Option.bind_some]
  exact hn

theorem ifFalse (hc : Nested c) (he : holds? σ e = some false) (hr : Runs limit false r σ τ) :
    Runs limit taken (.line (.ifThen e) :: .line .openBlock :: (c ++ .line .closeBlock :: r)) σ τ := by
  intro K ω hK hω
  obtain ⟨n, hn⟩ := hr K ω hK hω
  refine ⟨n + 1, ?_⟩
  simp only [exec, execWith, List.cons_append, List.append_assoc, hc.splitBlock_close, he, bind, Option.bind_some]
  exact hn

theorem elseIfTaken (hc : Nested c) (hr : Runs limit true r σ τ) :
    Runs limit true (.line (.elseIf e) :: .line .openBlock :: (c ++ .line .closeBlock :: r)) σ τ := by
  intro K ω hK hω
  obtain ⟨n, hn⟩ := hr K ω hK hω
  refine ⟨n + 1, ?_⟩
  simp only [exec, execWith, List.cons_append, List.append_assoc, hc.splitBlock_close, bind, Option.bind_some]
  exact hn

theorem elseIfTrue (hc : Nested c) (he : holds? σ e = some true) (h : Runs limit false c σ υ)
    (hr : Runs limit true r υ τ) :
    Runs limit false (.line (.elseIf e) :: .line .openBlock :: (c ++ .line .closeBlock :: r)) σ τ := by
  intro K ω hK hω
  obtain ⟨n, hn⟩ := h.executes.seq (hr K ω hK hω)
  refine ⟨n + 1, ?_⟩
  simp only [exec, execWith, List.cons_append, List.append_assoc, hc.splitBlock_close, he, bind, Option.bind_some]
  exact hn

theorem elseIfFalse (hc : Nested c) (he : holds? σ e = some false) (hr : Runs limit false r σ τ) :
    Runs limit false (.line (.elseIf e) :: .line .openBlock :: (c ++ .line .closeBlock :: r)) σ τ := by
  intro K ω hK hω
  obtain ⟨n, hn⟩ := hr K ω hK hω
  refine ⟨n + 1, ?_⟩
  simp only [exec, execWith, List.cons_append, List.append_assoc, hc.splitBlock_close, he, bind, Option.bind_some]
  exact hn

/-! ### Loops -/

theorem whileFalse (hc : Nested c) (he : holds? σ e = some false) :
    Runs limit taken (whileSteps e c) σ σ := by
  intro K ω hK hω
  obtain ⟨n, hn⟩ := hω
  refine ⟨n + 1, ?_⟩
  simp only [exec, execWith, whileSteps, List.cons_append, List.append_assoc, List.nil_append, hc.splitBlock_close,
    he, bind, Option.bind_some]
  exact hn

theorem whileTrue (hc : Nested c) (he : holds? σ e = some true) (h : Runs limit false c σ υ)
    (hr : Runs limit false (whileSteps e c) υ τ) : Runs limit taken (whileSteps e c) σ τ := by
  intro K ω hK hω
  obtain ⟨n, hn⟩ := h.executes.seq (hr K ω hK hω)
  refine ⟨n + 1, ?_⟩
  simp only [whileSteps, List.cons_append, List.append_assoc, List.nil_append] at hn ⊢
  simp only [exec, execWith, hc.splitBlock_close, he, bind, Option.bind_some]
  exact hn

/-- A loop whose rounds are counted from some number up to a bound: each round takes the invariant on, and the
condition tells whether the bound is reached. -/
theorem whileRounds {size : Nat} {I : Nat → Store → Prop} (hc : Nested c)
    (he : ∀ i σ, i ≤ size → I i σ → holds? σ e = some (decide (i < size)))
    (hround : ∀ i σ, i < size → I i σ → ∃ τ, Runs limit false c σ τ ∧ I (i + 1) τ) {i : Nat} (hi : i ≤ size)
    (h : I i σ) : ∃ τ, Runs limit taken (whileSteps e c) σ τ ∧ I size τ := by
  obtain ⟨k, hk⟩ : ∃ k, size = i + k := ⟨size - i, by omega⟩
  -- The induction is on the number of rounds that are left.
  induction k generalizing i σ taken with
  | zero =>
    obtain rfl : size = i := hk
    exact ⟨σ, whileFalse hc (by simpa using he size σ hi h), h⟩
  | succ k ih =>
    have hlt : i < size := by omega
    obtain ⟨υ, hrun, hυ⟩ := hround i σ hlt h
    obtain ⟨τ, hrest, hτ⟩ := ih hlt hυ (by omega)
    exact ⟨τ, whileTrue hc (by simpa [hlt] using he i σ hi h) hrun hrest, hτ⟩

end Runs

end Memory

end CBackend
