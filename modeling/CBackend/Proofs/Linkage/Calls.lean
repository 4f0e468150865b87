import CBackend.Proofs.Linkage.Definitions

/-!
# The arguments of calls

A call evaluates its arguments one after the other, from the first to the last or the other way round. What is passed
stands in the order of the parameters, after the address of the result if the result is passed back through a pointer.
There are as many C arguments as the signature has C parameters.
-/

namespace CBackend

open IR Lowering
open C (CType)

/-- An expression is used where it is, or put into a fresh local variable. -/
inductive Held (ty : CType) (e : C.Expr) : Draft → C.Expr → Draft → Prop
  | inline {d : Draft} : Held ty e d e d
  | copied {d d' : Draft} {v : Value} (h : Emit.declareWith ty e d = .ok (v, d')) :
      Held ty e d (.name (.localVar d.func.counter)) d'

/-- A value is kept from later effects: it stays as it is, or it is put into a fresh local variable. -/
def Kept (v : Value) (d : Draft) (v' : Value) (d' : Draft) : Prop :=
  v' = v ∧ d' = d ∨ ∃ e, v.asInitializer = .ok e ∧ Emit.declareWith v.ty e d = .ok (v', d')

/-- An argument is evaluated, and what is passed for it: nothing if the parameter is omitted, the value if it is passed
directly, the address of a fresh local variable that gets the value, or the address of the value. -/
inductive Passes (m : Module) (w : Walk) (arg : ExprId) :
    ParamPassing → Draft → Option C.Expr → Draft → Prop
  | omitted {d d' : Draft} {v : Value} (h : w.expr arg none d = .ok (v, d')) : Passes m w arg .omitted d none d'
  | direct {d d₁ d' : Draft} {v : Value} {e e' : C.Expr} (h : w.expr arg none d = .ok (v, d₁))
      (hv : v.asInitializer = .ok e) (hheld : Held v.ty e d₁ e' d') : Passes m w arg .direct d (some e') d'
  | indirect {d d₁ d₂ d' : Draft} {ty : Ty} {c : CType} {temp v : Value} (hty : exprTy m arg = .ok ty)
      (hc : valueType m ty d = .ok (c, d₁)) (htemp : Emit.declareLocal c d₁ = .ok (temp, d₂))
      (h : w.expr arg (some temp) d₂ = .ok (v, d')) :
      Passes m w arg .indirect d (some (.addressOf (.name (.localVar d₁.func.counter)))) d'
  | reference {d d₁ d₂ d' : Draft} {v v' : Value} {ty : CType} {n : Nat} {parens : Bool} {e e' : C.Expr}
      (h : w.expr arg none d = .ok (v, d₁)) (hv : Emit.materialize v d₁ = .ok (v', d₂))
      (haddress : v'.address = .ok e) (hheld : Held ty (.parenIf parens e) { d₂ with valueCounter := n } e' d') :
      Passes m w arg .reference d (some e') d'

/-- The position of the argument that is evaluated in a step. -/
def IR.ArgOrder.position (order : ArgOrder) (n k : Nat) : Nat :=
  match order with
  | .regular => k
  | .reversed => n - 1 - k

/-- The arguments of a call are evaluated in the given order, and what is passed stands in the order of the
parameters. -/
def PassesAll (m : Module) (w : Walk) (passings : List ParamPassing) (args : List ExprId) (order : ArgOrder)
    (d : Draft) (passed : List C.Expr) (d' : Draft) : Prop :=
  ∃ (s : Nat → Draft) (e : Nat → Option C.Expr), s 0 = d ∧ s args.length = d' ∧
    (∀ k < args.length, ∃ arg p, args[order.position args.length k]? = some arg ∧
      passings[order.position args.length k]? = some p ∧
      Passes m w arg p (s k) (e (order.position args.length k)) (s (k + 1))) ∧
    passed = (List.range args.length).filterMap e

/-- A line that holds a call: a statement, an initialiser or the right side of an assignment. -/
inductive WritesCall (callee : C.Expr) (args : List C.Expr) : C.Line → Prop
  | statement : WritesCall callee args (.expression (.call callee args))
  | initializer {ty : CType} {n : Nat} : WritesCall callee args (.declare ty n (some (.call callee args)))
  | assignment {lhs : C.Expr} : WritesCall callee args (.expression (.binary "=" lhs (.call callee args)))

variable {m : Module} {w : Walk} {d : Draft} {v : Value} {passings : List ParamPassing} {args : List ExprId}
  {order : ArgOrder} {d' : Draft} {dest : Option Value}

/-! ### One argument -/

namespace Ensures

/-- A variable that is declared with an initialiser. -/
theorem declareWith {ty : CType} {e : C.Expr} :
    Ensures d (Emit.declareWith ty e) fun v d' => v.asInitializer = .ok (.name (.localVar d.func.counter)) ∧
      d'.func.steps = d.func.steps.push (.line (.declare ty d.func.counter (some e))) := by
  rintro _ _ ⟨⟩
  exact ⟨rfl, rfl⟩

/-- A value, used where it is or put into a fresh local variable, as an argument. -/
theorem held {x : Emit Value} (hx : Ensures d x (Kept v d)) :
    Ensures d (do
      let v' ← x
      Pure.pure (some (← v'.asInitializer))) fun passed d' =>
        ∃ e e', v.asInitializer = .ok e ∧ passed = some e' ∧ Held v.ty e d e' d' := by
  refine .bind hx ?_
  rintro v' d' (⟨rfl, rfl⟩ | ⟨e, he, hdeclare⟩)
  · exact .lift_bind fun e he => .pure ⟨e, e, he, rfl, .inline⟩
  · refine .lift_bind fun e' he' => .pure ⟨e, _, he, rfl, ?_⟩
    cases ((declareWith v' d' hdeclare).1).symm.trans he'
    exact .copied hdeclare

theorem copyToLocal : Ensures d (Emit.copyToLocal v) (Kept v d) :=
  .lift_bind fun e he _ _ h => .inr ⟨e, he, h⟩

/-- A value that is kept from later effects. -/
theorem stabilizeUnless {isSafe : Bool} : Ensures d (stabilizeUnless isSafe v) (Kept v d) := by
  unfold Lowering.stabilizeUnless stabilize
  split
  · exact .pure (.inl ⟨rfl, rfl⟩)
  · split
    · exact .pure (.inl ⟨rfl, rfl⟩)
    · exact copyToLocal

theorem materialize : Ensures d (Emit.materialize v) fun v' _ => v'.isRvalue = false := by
  unfold Emit.materialize
  split
  · refine .lift_bind fun e _ => ?_
    rintro _ _ ⟨⟩
    rfl
  · next hv => exact .pure (by simpa using hv)

/-- The address of a value as another value. -/
theorem addressOf : Ensures d (Emit.addressOf v) fun a d' => ∃ v' d₁ n, Emit.materialize v d = .ok (v', d₁) ∧
    d' = { d₁ with valueCounter := n } ∧
    ∀ e', a.asInitializer = .ok e' → ∃ e parens, v'.address = .ok e ∧ e' = .parenIf parens e := by
  refine .bind (Q := fun v' d₁ => Emit.materialize v d = .ok (v', d₁)) (fun _ _ h => h) fun v' d₁ hv' => ?_
  refine .bind (Keeps.pointerFor (R := Eq) d₁) ?_
  rintro ty _ rfl
  split
  · next hindirect =>
    refine .pure ⟨v', d₁, d₁.valueCounter, hv', rfl, fun e' he' => ?_⟩
    have hrvalue : v'.isRvalue = false := materialize _ _ hv'
    obtain ⟨_, he, he'⟩ := exists_of_bind_eq_ok he'
    obtain ⟨e, hinner, he⟩ := exists_of_bind_eq_ok he
    cases he
    cases he'
    refine ⟨e, _, ?_, rfl⟩
    rw [Value.address, hrvalue, hindirect]
    exact hinner
  · refine .lift_bind fun e he => ?_
    rintro _ _ ⟨⟩
    refine ⟨v', d₁, _, hv', rfl, ?_⟩
    rintro _ ⟨⟩
    exact ⟨e, false, he, rfl⟩

/-- An argument. -/
theorem argument {passing : ParamPassing} {arg : ExprId} {isSafe : Bool} :
    Ensures d (argument m w passing arg isSafe) fun passed d' => Passes m w arg passing d passed d' := by
  have hexpr {dest : Option Value} {d : Draft} :
      Ensures d (w.expr arg dest) fun v d' => w.expr arg dest d = .ok (v, d') := fun _ _ h => h
  cases passing with
  | omitted =>
    refine .bind (.discard (Φ := fun _ d' => ∃ v, w.expr arg none d = .ok (v, d')) fun v _ h => ⟨v, h⟩) ?_
    rintro _ d' ⟨v, h⟩
    exact .pure (.omitted h)
  | direct =>
    refine .bind hexpr fun v d₁ h => ?_
    refine (held stabilizeUnless).mono ?_
    rintro _ d' ⟨e, e', hv, rfl, hheld⟩
    exact .direct h hv hheld
  | indirect =>
    refine .lift_bind fun ty hty => ?_
    refine .bind (Q := fun c d₁ => valueType m ty d = .ok (c, d₁)) (fun _ _ h => h) fun c d₁ hc => ?_
    refine .bind (Q := fun temp d₂ => Emit.declareLocal c d₁ = .ok (temp, d₂)) (fun _ _ h => h) fun temp d₂ htemp => ?_
    refine .bind (.discard (Φ := fun _ d' => ∃ v, w.expr arg (some temp) d₂ = .ok (v, d')) fun v _ h => ⟨v, h⟩) ?_
    rintro _ d' ⟨v, h⟩
    refine .lift_bind fun e he => .pure ?_
    cases htemp
    cases he
    exact .indirect hty hc rfl h
  | reference =>
    refine .bind hexpr fun v d₁ h => ?_
    refine .bind addressOf ?_
    rintro a d₃ ⟨v', d₂, n, hv', rfl, haddress⟩
    have hkept {x : Emit Value} (hx : Ensures { d₂ with valueCounter := n } x (Kept a { d₂ with valueCounter := n })) :
        Ensures { d₂ with valueCounter := n } (do
          let a' ← x
          Pure.pure (some (← a'.asInitializer))) fun passed d' => Passes m w arg .reference d passed d' := by
      refine (held hx).mono ?_
      rintro _ d' ⟨e', e'', he', rfl, hheld⟩
      obtain ⟨e, parens, he, rfl⟩ := haddress e' he'
      exact .reference h hv' he hheld
    split
    · exact hkept (x := Pure.pure a) (.pure (.inl ⟨rfl, rfl⟩))
    · exact hkept copyToLocal

/-- Arguments one after the other. -/
theorem argumentsInOrder {args : List (ExprId × Nat)} :
    Ensures d (argumentsInOrder m w passings args) fun es d' => ∃ s : Nat → Draft,
      s 0 = d ∧ s args.length = d' ∧ es.length = args.length ∧ ∀ k arg i, args[k]? = some (arg, i) →
        ∃ p e, passings[i]? = some p ∧ es[k]? = some e ∧ Passes m w arg p (s k) e (s (k + 1)) := by
  induction args generalizing d with
  | nil => exact .pure ⟨fun _ => d, rfl, rfl, rfl, by simp⟩
  | cons arg later ih =>
    obtain ⟨arg, i⟩ := arg
    refine .lift_bind fun isSafe _ => .lift_bind fun p hp => ?_
    refine .bind argument fun e d₁ he => .bind ih ?_
    rintro es d' ⟨s, hfirst, hlast, hlength, hs⟩
    refine .pure ⟨fun k => Nat.casesOn (motive := fun _ => Draft) k d s, rfl, hlast, congrArg (· + 1) hlength, ?_⟩
    intro k arg' i' hk
    cases k with
    | zero =>
      cases hk
      subst hfirst
      exact ⟨p, e, eq_some_of_inRange hp, rfl, he⟩
    | succ k => exact hs k arg' i' hk

end Ensures

/-! ### All arguments -/

theorem map_getElem?_range {α : Type} (l : List α) : (List.range l.length).map (l[·]?) = l.map some := by
  refine List.ext_getElem (by simp) fun n h₁ h₂ => ?_
  simp

theorem filterMap_join_range {α : Type} (l : List (Option α)) :
    (List.range l.length).filterMap (fun i => (l[i]?).join) = l.filterMap id := by
  calc
    _ = ((List.range l.length).map (l[·]?)).filterMap Option.join := (List.filterMap_map).symm
    _ = (l.map some).filterMap Option.join := by rw [map_getElem?_range]
    _ = l.filterMap id := List.filterMap_map

theorem IR.ArgOrder.position_lt {n k : Nat} (h : k < n) : order.position n k < n := by
  cases order with
  | regular => exact h
  | reversed =>
    simp only [position]
    omega

theorem IR.ArgOrder.position_position {n k : Nat} (h : k < n) :
    order.position n (order.position n k) = k := by
  cases order with
  | regular => rfl
  | reversed =>
    simp only [position]
    omega

/-- The arguments of a call. -/
theorem Ensures.arguments :
    Ensures d (arguments m w passings args order) (PassesAll m w passings args order d) := by
  have hall {L : List (ExprId × Nat)} {es : List (Option C.Expr)} {d' : Draft} {s : Nat → Draft}
      (hL : ∀ k < args.length, ∃ arg, args[order.position args.length k]? = some arg ∧
        L[k]? = some (arg, order.position args.length k))
      (hlength : L.length = args.length)
      (h : s 0 = d ∧ s L.length = d' ∧ es.length = L.length ∧ ∀ k arg i, L[k]? = some (arg, i) →
        ∃ p e, passings[i]? = some p ∧ es[k]? = some e ∧ Passes m w arg p (s k) e (s (k + 1)))
      {passed : List C.Expr}
      (hpassed : passed = (List.range args.length).filterMap fun i => (es[order.position args.length i]?).join) :
      PassesAll m w passings args order d passed d' := by
    obtain ⟨hfirst, hlast, -, hs⟩ := h
    refine ⟨s, fun i => (es[order.position args.length i]?).join, hfirst, hlength ▸ hlast, fun k hk => ?_, hpassed⟩
    obtain ⟨arg, harg, hLk⟩ := hL k hk
    obtain ⟨p, e, hp, he, hpasses⟩ := hs k arg _ hLk
    refine ⟨arg, p, harg, hp, ?_⟩
    dsimp only
    rwa [ArgOrder.position_position hk, he]
  cases order with
  | regular =>
    refine .bind Ensures.argumentsInOrder ?_
    rintro es d' ⟨s, hs⟩
    refine .pure (hall (fun k hk => ?_) (by simp) hs ?_)
    · exact ⟨args[k], by simp [ArgOrder.position, hk], by simp [ArgOrder.position, hk]⟩
    · rw [← filterMap_join_range, hs.2.2.1, List.length_zipIdx]
      rfl
  | reversed =>
    refine .bind Ensures.argumentsInOrder ?_
    rintro es d' ⟨s, hs⟩
    have hlength : es.length = args.length := by simpa using hs.2.2.1
    refine .pure (hall (fun k hk => ?_) (by simp) hs ?_)
    · have hlt : args.length - 1 - k < args.length := by omega
      refine ⟨args[args.length - 1 - k], by simp [ArgOrder.position, hlt], ?_⟩
      rw [List.getElem?_reverse (by simpa using hk)]
      simp [ArgOrder.position, hlt]
    · rw [← filterMap_join_range, List.length_reverse, hlength]
      refine List.filterMap_congr fun i hi => ?_
      rw [List.getElem?_reverse (by simpa [hlength] using hi), hlength]
      rfl

theorem Passes.isSome_eq {arg : ExprId} {p : ParamPassing} {e : Option C.Expr} (h : Passes m w arg p d e d') :
    e.isSome = (p != .omitted) := by
  cases h <;> rfl

/-- There is one C argument for every parameter that is not omitted. -/
theorem PassesAll.length_eq {passed : List C.Expr} (h : PassesAll m w passings args order d passed d')
    (hlength : args.length = passings.length) : passed.length = passings.countP (· != .omitted) := by
  obtain ⟨s, e, -, -, hs, rfl⟩ := h
  have hsome : ∀ i ∈ List.range args.length, (e i).isSome = (passings[i]?).any (· != .omitted) := by
    intro i hi
    have hi := List.mem_range.1 hi
    obtain ⟨arg, p, -, hp, hpasses⟩ := hs _ (ArgOrder.position_lt hi)
    rw [ArgOrder.position_position hi] at hp hpasses
    rw [hp, hpasses.isSome_eq]
    rfl
  calc
    _ = (List.range args.length).countP fun i => (e i).isSome := List.length_filterMap_eq_countP
    _ = (List.range args.length).countP fun i => (passings[i]?).any (· != .omitted) :=
      List.countP_congr fun i hi => by rw [hsome i hi]
    _ = ((List.range passings.length).map (passings[·]?)).countP fun p => p.any (· != .omitted) := by
      rw [List.countP_map, hlength]
      rfl
    _ = passings.countP (· != .omitted) := by
      rw [map_getElem?_range, List.countP_map]
      rfl

/-! ### Calls -/

/-- A call by a convention is written: the arguments are evaluated in the given order, and then one line holds the
call. The address of the result comes first exactly if the result is passed back through a pointer; the storage of the
result may be declared right before the call. -/
def CallWritten (m : Module) (w : Walk) (callee : C.Expr) (c : Convention) (args : List ExprId)
    (order : ArgOrder) (d : Draft) (v : Value) (d' : Draft) (cargs : List C.Expr) : Prop :=
  ∃ passed d₁ storage l, PassesAll m w c.params args order d passed d₁ ∧
    d'.func.steps.toList = d₁.func.steps.toList ++ storage ++ [.line l] ∧ WritesCall callee cargs l ∧
    (c.result = .indirect ∧ (∃ address, v.address = .ok address ∧ cargs = address :: passed) ∧
        (storage = [] ∨ ∃ ty n, storage = [.line (.declare ty n none)]) ∨
      c.result ≠ .indirect ∧ cargs = passed ∧ storage = [])

/-- A call passes as many C arguments as its convention has C parameters. -/
theorem CallWritten.length_eq {callee : C.Expr} {c : Convention} {cargs : List C.Expr}
    (h : CallWritten m w callee c args order d v d' cargs) (hlength : args.length = c.params.length) :
    cargs.length = c.arity := by
  obtain ⟨passed, d₁, storage, l, hpassed, -, -, hcases⟩ := h
  have hcount := hpassed.length_eq hlength
  obtain ⟨hresult, ⟨address, -, rfl⟩, -⟩ | ⟨hresult, rfl, -⟩ := hcases
  · rw [List.length_cons, hcount, Convention.arity, Convention.hasResultPointer, hresult, Nat.add_comm]
    rfl
  · have hpointer : c.hasResultPointer = false := by simpa [Convention.hasResultPointer] using hresult
    rw [hcount, Convention.arity, hpointer]
    simp

/-- The right side of an assignment needs no parentheses if it is a call. -/
theorem exists_of_assignment {dest value : Value} {rhs e : C.Expr} (hprecedence : value.effectivePrecedence = .suffix)
    (hvalue : value.render = .ok rhs) (h : dest.binary "=" value .assignment = .ok e) :
    ∃ lhs, e = .binary "=" lhs rhs := by
  rw [Value.binary, hprecedence] at h
  obtain ⟨lhs, -, h⟩ := exists_of_bind_eq_ok h
  obtain ⟨rhs', hrhs, h⟩ := exists_of_bind_eq_ok h
  rw [Value.renderParen, hvalue] at hrhs
  cases hrhs
  cases h
  exact ⟨lhs, rfl⟩

namespace Ensures

theorem lowerType_func {ty : Ty} {define : Bool} :
    Ensures d (lowerType m ty define) fun _ d' => d'.func = d.func := by
  have hkeeps : Keeps SameBodies (lowerType m ty define) := Keeps.lowerType
  exact (hkeeps d).mono fun _ _ h => h.func

/-- The storage of a result. -/
theorem resultStorage {ty : Ty} :
    Ensures d (resultStorage m dest ty) fun _ d' => ∃ storage,
      d'.func.steps.toList = d.func.steps.toList ++ storage ∧
        (storage = [] ∨ ∃ ty n, storage = [.line (.declare ty n none)]) := by
  cases dest with
  | some dest => exact .pure ⟨[], by simp, .inl rfl⟩
  | none =>
    refine .bind lowerType_func fun c d₁ h₁ => ?_
    rintro _ _ ⟨⟩
    exact ⟨[_], by rw [← h₁]; exact Array.toList_push, .inr ⟨_, _, rfl⟩⟩

/-- A call by a convention. -/
theorem callWith {callee : C.Expr} {c : Convention} {result : Ty} :
    Ensures d (callWith m w callee c result args order dest) fun v d' =>
      ∃ cargs, CallWritten m w callee c args order d v d' cargs := by
  refine .bind arguments fun passed d₁ hpassed => ?_
  have hplain {v : Value} {d₂ d' : Draft} {l : C.Line} (hresult : c.result ≠ .indirect) (hfunc : d₂.func = d₁.func)
      (hsteps : d'.func.steps = d₂.func.steps.push (.line l)) (hl : WritesCall callee passed l) :
      ∃ cargs, CallWritten m w callee c args order d v d' cargs := by
    refine ⟨passed, passed, d₁, [], l, hpassed, ?_, hl, .inr ⟨hresult, rfl, rfl⟩⟩
    rw [hsteps, hfunc, Array.toList_push, List.append_nil]
  cases hresult : c.result with
  | indirect =>
    refine .bind resultStorage ?_
    rintro v d₂ ⟨storage, hsteps, hstorage⟩
    refine .lift_bind fun address haddress => ?_
    rintro _ _ ⟨⟩
    refine ⟨_, passed, d₁, storage, _, hpassed, ?_, .statement, .inl ⟨hresult, ⟨address, haddress, rfl⟩, hstorage⟩⟩
    rw [← hsteps]
    exact Array.toList_push
  | reference =>
    refine .bind lowerType_func fun ty d₂ h₂ => ?_
    unfold Emit.dereferenceText
    split
    · rintro _ _ ⟨⟩
      exact hplain (by simp [hresult]) h₂ rfl .initializer
    · exact .bind (Q := fun _ _ => True) (fun _ _ _ => trivial) fun _ _ _ => .throw
  | direct =>
    refine .bind lowerType_func fun ty d₂ h₂ => ?_
    cases dest with
    | none =>
      rintro _ _ ⟨⟩
      exact hplain (by simp [hresult]) h₂ rfl .initializer
    | some dest =>
      refine .bind (Q := fun value d₃ => d₃.func = d₂.func ∧ value.render = .ok (.call callee passed) ∧
        value.effectivePrecedence = .suffix) (by rintro _ _ ⟨⟩; exact ⟨rfl, rfl, rfl⟩) ?_
      rintro value d₃ ⟨h₃, hvalue, hprecedence⟩
      refine .bind (Q := fun _ d' => ∃ lhs, d'.func.steps = d₃.func.steps.push
        (.line (.expression (.binary "=" lhs (.call callee passed))))) ?_ ?_
      · refine .lift_bind fun e he => ?_
        rintro _ _ ⟨⟩
        obtain ⟨lhs, rfl⟩ := exists_of_assignment hprecedence hvalue he
        exact ⟨lhs, rfl⟩
      · rintro _ d' ⟨lhs, hsteps⟩
        exact .pure (hplain (by simp [hresult]) (h₃.trans h₂) hsteps .assignment)
  | nothing =>
    rintro _ _ ⟨⟩
    exact hplain (by simp [hresult]) rfl rfl .statement

/-- A call of a function that is not an intrinsic. -/
theorem directCall {func : FuncId} {f : Function} :
    Ensures d (directCall m w func f args order dest) fun v d' => ∃ name d₁ c cargs,
      Lowering.declareFunction m func d = .ok (name, d₁) ∧ Convention.ofFunction m func = .ok c ∧
        CallWritten m w (.name name) c args order d₁ v d' cargs := by
  refine .bind (Q := fun name d₁ => Lowering.declareFunction m func d = .ok (name, d₁)) (fun _ _ h => h) ?_
  intro name d₁ hname
  refine .lift_bind fun c hc => callWith.mono ?_
  rintro v d' ⟨cargs, hcall⟩
  exact ⟨name, d₁, c, cargs, hname, hc, hcall⟩

/-- A call through a value of function type. -/
theorem indirectCall {callee : ExprId} :
    Ensures d (indirectCall m w callee args dest) fun v d' => ∃ result params c value value' d₁ d₂ e cargs,
      exprTy m callee = .ok (.function result params) ∧ Convention.compute m result params = .ok c ∧
        w.expr callee none d = .ok (value, d₁) ∧ Kept value d₁ value' d₂ ∧ value'.asCallee = .ok e ∧
        CallWritten m w e c args .regular d₂ v d' cargs := by
  refine .lift_bind fun ty hty => ?_
  split
  · next result params =>
    refine .lift_bind fun c hc => ?_
    refine .bind (Q := fun value d₁ => w.expr callee none d = .ok (value, d₁)) (fun _ _ h => h) ?_
    intro value d₁ hvalue
    refine .lift_bind fun isSafe _ => .bind stabilizeUnless fun value' d₂ hkept => ?_
    refine .lift_bind fun e he => callWith.mono ?_
    rintro v d' ⟨cargs, hcall⟩
    exact ⟨result, params, c, value, value', d₁, d₂, e, cargs, hty, hc, hvalue, hkept, he, hcall⟩
  · exact .throw

end Ensures

end CBackend
