import CBackend.Proofs.Initialisers.Drafts
import CBackend.Proofs.Plans.Code

/-!
# Operands of plans

The operands of a plan are variables, or elements that the plan around it has bound. Evaluating one writes no code,
and it denotes the same object until the plan is done.
-/

namespace CBackend

open IR Lowering
open Memory (Idle ifSteps)
open C (CType)

variable {α : Type} {m : Module} {d d' : Draft} {limit depth : Nat} {v w : Value} {id src lhs rhs : ExprId} {ty : Ty}

/-- The node at a position. It has no cleanup, and control gets past it. -/
structure IR.Module.Has (m : Module) (id : ExprId) (kind : ExprKind) (ty : Ty) (category : Category) : Prop where
  node : m.expr? id = some ⟨kind, ty, category, {}⟩
  returns : category ≠ .noreturn

/-- An expression denotes a value: a variable, or an element that is bound. -/
inductive StandsFor (m : Module) (d : Draft) (id : ExprId) (v : Value) : Prop
  | element {k : Nat} {ty : Ty} {c : Category} (h : m.Has id (.valueReference k) ty c)
      (hv : d.func.bindings[k]? = some v)
  | localVariable {x : VarId} {ty : Ty} {c : Category} (h : m.Has id (.variableRef x) ty c)
      (hv : d.func.locals.lookup x = some v)
  | globalVariable {x : VarId} {ty : Ty} {c : Category} (h : m.Has id (.variableRef x) ty c)
      (hx : d.func.locals.lookup x = none) (hv : d.globals.lookup x = some v)

theorem StandsFor.kept (h : StandsFor m d id v) (hkept : Untouched d d') : StandsFor m d' id v := by
  cases h with
  | element h hv => exact .element h (by rw [hkept.bindings, hv])
  | localVariable h hv => exact .localVariable h (by rw [hkept.locals, hv])
  | globalVariable h hx hv => exact .globalVariable h (by rw [hkept.locals, hx]) (by rw [hkept.globals, hv])

/-- Operands have no effects. -/
theorem StandsFor.isSimple (h : StandsFor m d id v) : isSimple m id = .ok true := by
  have hsimple {kind : ExprKind} {ty : Ty} {c : Category} (h : m.Has id kind ty c)
      (hkind : (∃ k, kind = .valueReference k) ∨ ∃ x, kind = .variableRef x) : Lowering.isSimple m id = .ok true := by
    unfold Lowering.isSimple isSimpleWithin exprAt
    rw [h.node]
    rcases hkind with ⟨k, rfl⟩ | ⟨x, rfl⟩ <;> rfl
  cases h with
  | element h _ => exact hsimple h (.inl ⟨_, rfl⟩)
  | localVariable h _ => exact hsimple h (.inr ⟨_, rfl⟩)
  | globalVariable h _ _ => exact hsimple h (.inr ⟨_, rfl⟩)

namespace Adds

/-! ### Types -/

/-- The number of values stays. -/
def SameValues (d d' : Draft) : Prop :=
  d'.valueCounter = d.valueCounter

instance : Std.Refl SameValues :=
  ⟨fun _ => rfl⟩

instance : IsTrans Draft SameValues :=
  ⟨fun _ _ _ h h' => h'.trans h⟩

instance : AllowsTypes SameValues :=
  ⟨fun _ _ _ _ _ _ _ => rfl⟩

theorem valueType : Adds d (valueType m ty) fun _ S _ => S = [] := by
  refine .silent fun cty d' h => ?_
  have hlater : Later d d' := (Keeps.lowerType_onward (m := m) _ _ _ h).later
  have hbodies : SameBodies d d' := Keeps.lowerType _ _ _ h
  have hvalues : SameValues d d' := Keeps.lowerType _ _ _ h
  have hstrings : SameStrings d d' := Keeps.lowerType _ _ _ h
  refine ⟨by rw [hbodies.func], ⟨?_, Nat.le_of_eq hvalues.symm, ?_, ?_, ?_, hbodies.globals, hlater, .of_same hstrings⟩,
    rfl⟩
  all_goals rw [hbodies.func]

theorem completeTypeOf : Adds d (completeTypeOf m id) fun _ S _ => S = [] := by
  exact .lift_bind fun ty _ => .discard .valueType

theorem boolType : Adds d Emit.boolType fun _ S d' => S = [] ∧ d' = d := by
  refine .silent fun ty d' h => ?_
  have heq : d = d' := Keeps.builtin (R := Eq) _ _ _ h
  subst heq
  exact ⟨rfl, .refl d, rfl, rfl⟩

theorem sizeType : Adds d Emit.sizeType fun _ S d' => S = [] ∧ d' = d := by
  refine .silent (Ensures.get_bind fun ty d' h => ?_)
  have heq : d = d' := Keeps.builtin (R := Eq) _ _ _ h
  subst heq
  exact ⟨rfl, .refl d, rfl, rfl⟩

/-! ### Nodes -/

theorem materialize (hv : v.isRvalue = false) : Adds d (Emit.materialize v) fun u S d' => S = [] ∧ d' = d ∧ u = v := by
  unfold Emit.materialize
  rw [hv]
  exact .pure ⟨rfl, rfl, rfl⟩

theorem addOwnCleanup {kind : ExprKind} {c : Category} :
    Adds d (addOwnCleanup ⟨kind, ty, c, {}⟩ v) fun u S d' => S = [] ∧ d' = d ∧ u = v :=
  .pure ⟨rfl, rfl, rfl⟩

/-- A node is lowered by its kind, and its value goes to the destination. -/
theorem exprNode {kind : ExprKind} {c : Category} {dest : Option Value} {Φ : Value → List Step → Prop}
    {Ψ : Value → List Step → Draft → Prop} (hnode : m.Has id kind ty c)
    (hkind : Adds d (exprKind m (walk m depth) ⟨kind, ty, c, {}⟩ dest) Ψ)
    (hstore : ∀ u S d₁, Untouched d d₁ → Ψ u S d₁ →
      Adds d₁ (storeResult u dest) fun u' S' _ => ∀ n, Φ u' (S ++ S' ++ [.note n])) :
    Adds d ((walk m (depth + 1)).expr id dest) fun u S _ => Φ u S := by
  refine .lift_bind fun e he => ?_
  cases (eq_some_of_inRange he).symm.trans hnode.node
  have hdest : (if c == .noreturn then none else dest) = dest := by
    rw [if_neg (by simpa using hnode.returns)]
  simp only [hdest]
  refine .bind hkind fun u S d₁ hkept hu => .bind (hstore u S d₁ hkept hu) fun u' S' d₂ _ hu' => ?_
  refine .bind .addOwnCleanup ?_
  rintro _ _ _ - ⟨rfl, rfl, rfl⟩
  refine .bind .note ?_
  rintro _ _ d₃ - rfl
  refine .pure ?_
  simpa using hu' _

/-- The value of an operand is the object that it denotes. -/
theorem operand (h : StandsFor m d id v) : Adds d ((walk m depth).expr id none) fun u S _ =>
    u = v ∧ ∀ limit, Idle limit S := by
  cases depth with
  | zero => exact .throw
  | succ depth =>
    have hread {kind : ExprKind} {ty : Ty} {c : Category} (hnode : m.Has id kind ty c)
        (hkind : Adds d (exprKind m (walk m depth) ⟨kind, ty, c, {}⟩ none) fun u S _ => u = v ∧ S = []) :
        Adds d ((walk m (depth + 1)).expr id none) fun u S _ => u = v ∧ ∀ limit, Idle limit S := by
      refine .exprNode (Φ := fun u S => u = v ∧ ∀ limit, Idle limit S) hnode hkind ?_
      rintro u _ d₁ - ⟨rfl, rfl⟩
      exact .pure fun n => ⟨rfl, fun _ => .note n⟩
    cases h with
    | element h hv =>
      refine hread h (Ensures.getFunction_bind ?_)
      rw [hv]
      exact Adds.pure ⟨rfl, rfl⟩
    | localVariable h hv =>
      refine hread h (Ensures.bind (Ensures.getFunction_bind (Ensures.pure (Φ := fun o d' => o = some v ∧ d' = d)
        ⟨hv, rfl⟩)) ?_)
      rintro _ _ ⟨rfl, rfl⟩
      exact Adds.pure ⟨rfl, rfl⟩
    | globalVariable h hx hv =>
      refine hread h (Ensures.bind (Ensures.getFunction_bind (Ensures.pure (Φ := fun o d' => o = none ∧ d' = d)
        ⟨hx, rfl⟩)) ?_)
      rintro _ _ ⟨rfl, rfl⟩
      refine Ensures.bind (Ensures.get_bind (Ensures.pure (Φ := fun o d' => o = some v ∧ d' = _) ⟨hv, rfl⟩)) ?_
      rintro _ _ ⟨rfl, rfl⟩
      exact Adds.pure ⟨rfl, rfl⟩

theorem place (h : StandsFor m d lhs v) (hv : v.isRvalue = false) (h' : StandsFor m d rhs w) :
    Adds d (place m (walk m depth) lhs rhs) fun u S _ => u = v ∧ ∀ limit, Idle limit S := by
  refine .bind (.operand h) ?_
  rintro _ S d₁ hkept ⟨rfl, hS⟩
  refine .bind (.materialize hv) ?_
  rintro _ _ _ - ⟨rfl, rfl, rfl⟩
  split
  · exact .pure ⟨rfl, by simpa using hS⟩
  · refine .lift_bind fun b hb => ?_
    cases hb.symm.trans h'.isSimple
    exact .pure ⟨rfl, by simpa using hS⟩

/-- Both operands keep their places. -/
theorem operandPair (h : StandsFor m d lhs v) (hv : v.isRvalue = false) (h' : StandsFor m d rhs w) (hw : w.isRvalue = false) :
    Adds d (operandPair m (walk m depth) lhs rhs) fun u S _ => u = (v, w) ∧ ∀ limit, Idle limit S := by
  refine .bind .completeTypeOf ?_
  rintro _ _ d₁ hkept rfl
  refine .bind (.place (h.kept hkept) hv (h'.kept hkept)) ?_
  rintro _ S d₂ hkept' ⟨rfl, hS⟩
  refine .bind (.operand (h'.kept (hkept.trans hkept'))) ?_
  rintro _ S' d₃ - ⟨rfl, hS'⟩
  refine .bind (.materialize hw) ?_
  rintro _ _ _ - ⟨rfl, rfl, rfl⟩
  exact .pure ⟨rfl, fun limit => by simpa using (hS limit).append (hS' limit)⟩

/-- Code under a comparison of addresses, if asked for. -/
theorem guarded {guard : Bool} {body : Emit Unit} {Q : List Step → Prop} (h : ∀ d₁, Untouched d d₁ → Adds d₁ body fun _ S _ => Q S) :
    Adds d (guarded guard v w body) fun _ S _ => ∃ S', Q S' ∧ (S = S' ∨
      ∃ a b, v.address = .ok a ∧ w.address = .ok b ∧ S = ifSteps (.binary "!=" a b) S') := by
  unfold Lowering.guarded
  split
  · refine .bind .beginIfDistinct ?_
    rintro _ _ d₁ hkept ⟨a, b, ha, hb, rfl⟩
    refine .bind (h d₁ hkept) fun _ S d₂ _ hS => .mono .closeBlock ?_
    rintro _ _ d₃ - rfl
    exact ⟨S, hS, .inr ⟨a, b, ha, hb, by simp [ifSteps]⟩⟩
  · refine .mono (h d (.refl d)) fun _ S _ _ hS => ⟨S, hS, .inl rfl⟩

/-! ### Elements -/

/-- The draft with elements bound. -/
def bound (d : Draft) (vs : List Value) : Draft :=
  { d with func.bindings := vs.reverse ++ d.func.bindings }

theorem ensures_bind (vs : List Value) (d : Draft) : Ensures d (vs.forM Emit.bindElement) fun _ d' => d' = bound d vs := by
  induction vs generalizing d with
  | nil => exact Ensures.pure rfl
  | cons v vs ih =>
    refine Ensures.bind (Ensures.modifyFunction (Φ := fun _ d' => d' = bound d [v]) rfl) ?_
    rintro _ _ rfl
    refine Ensures.mono (ih _) ?_
    rintro _ _ rfl
    simp [bound]

theorem ensures_unbind (vs : List Value) (d : Draft) {us bs : List Value} (hus : us.length = vs.length)
    (hd : d.func.bindings = us ++ bs) : Ensures d (vs.forM fun _ => Emit.unbindElement) fun _ d' =>
      d' = { d with func.bindings := bs } := by
  induction vs generalizing d us with
  | nil =>
    obtain rfl := List.eq_nil_of_length_eq_zero hus
    refine Ensures.pure ?_
    rw [← List.nil_append bs, ← hd]
  | cons v vs ih =>
    obtain ⟨u, us, rfl⟩ := List.exists_cons_of_length_eq_add_one hus
    refine Ensures.bind (Ensures.getFunction_bind ?_ : Ensures d _ fun _ d' => d' = { d with func.bindings := us ++ bs }) ?_
    · rw [hd]
      exact Ensures.modifyFunction rfl
    · rintro _ _ rfl
      exact ih _ (by simpa using hus) rfl

/-- Closing a scope to which no cleanup was added writes nothing. -/
theorem closeScope {walk : Walk} {mark : Nat} (hmark : d.func.cleanups.length = mark) :
    Adds d (walk.closeScope mark) fun _ S _ => S = [] := by
  refine Ensures.bind (Q := fun taken d' => taken = [] ∧ d' = d) ?_ ?_
  · refine Ensures.bind (Q := fun taken d' => taken = [] ∧ d' = d) (Ensures.getFunction_bind ?_) ?_
    · rw [if_neg (by omega), hmark, Nat.sub_self]
      exact Ensures.pure ⟨rfl, rfl⟩
    · rintro _ _ ⟨rfl, rfl⟩
      exact Ensures.modifyFunction_bind (Ensures.pure (Φ := fun taken d' => taken = [] ∧ d' = _) ⟨rfl, rfl⟩)
  · rintro _ _ ⟨rfl, rfl⟩
    refine Ensures.getFunction_bind ?_
    split
    · exact Adds.modifyFunction (fun _ => rfl) (fun _ => rfl) (fun _ => rfl) (fun _ => rfl) fun _ => rfl
    · exact Adds.pure rfl

/-- A plan for elements is lowered with the elements bound, the last one first. -/
theorem withBound {vs : List Value} {dest : Option Value} {Q : List Step → Prop}
    (h : ∀ d₁, Later d d₁ → d.func.counter = d₁.func.counter → d.valueCounter = d₁.valueCounter →
      d₁.func.bindings = vs.reverse ++ d.func.bindings →
      Adds d₁ ((walk m depth).expr id dest) fun _ S _ => Q S) :
    Adds d ((walk m depth).withBound vs id dest) fun _ S _ => Q S := by
  refine Ensures.bind (ensures_bind vs d) ?_
  rintro _ _ rfl
  have hscope : Adds (bound d vs) ((walk m depth).inScope id dest) fun _ S _ => Q S := by
    refine Ensures.getFunction_bind ?_
    refine Adds.bind (h _ (SameTypes.later ⟨rfl, rfl, rfl, rfl, rfl⟩) rfl rfl rfl) fun u S d₁ hkept hS => ?_
    refine .bind (.closeScope (by rw [hkept.cleanups])) ?_
    rintro _ _ d₂ - rfl
    exact .pure (by simpa using hS)
  refine Ensures.bind (Ensures.discard (Φ := fun _ d' => ∃ S, d'.func.steps.toList = (bound d vs).func.steps.toList ++ S ∧
    Untouched (bound d vs) d' ∧ Q S) hscope) ?_
  rintro _ d₂ ⟨S, hsteps, hkept, hS⟩
  refine Ensures.mono (ensures_unbind vs d₂ (List.length_reverse) hkept.bindings) ?_
  rintro _ _ rfl
  refine ⟨S, hsteps, ⟨hkept.counter, hkept.values, rfl, hkept.locals, hkept.cleanups, hkept.globals, ?_, ?_⟩, hS⟩
  · have hto : Later d (bound d vs) := SameTypes.later ⟨rfl, rfl, rfl, rfl, rfl⟩
    exact hto.trans (hkept.types.trans (SameTypes.later ⟨rfl, rfl, rfl, rfl, rfl⟩))
  · have hto : Interns d (bound d vs) := .of_same ⟨rfl, rfl⟩
    exact hto.trans (hkept.strings.trans (.of_same ⟨rfl, rfl⟩))

end Adds

end CBackend
