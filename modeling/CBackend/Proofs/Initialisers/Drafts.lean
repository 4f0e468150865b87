import CBackend.Proofs.LoweredTypes

/-!
# What lowering constants leaves in a draft

Lowering a constant registers types, string constants and functions. What has been registered stays, so an expression
means the same in every later draft. Between two such pieces of work no aggregate is in the middle of being lowered, and
an aggregate whose values are asked for has its members then.
-/

namespace CBackend

open IR
open C (CType)

variable {m : Module} {d d' : Draft} {id : AggregateId} {ty : Ty} {func : FuncId}

/-! ### Aggregates that are being lowered -/

/-- No aggregate is in the middle of being lowered. -/
def Draft.Settled (d : Draft) : Prop :=
  ∀ id n, d.aggregates.lookup id ≠ some (.resolving n)

/-- No aggregate is being lowered that was not being lowered before. -/
def NoneStarted (d d' : Draft) : Prop :=
  ∀ id n, d'.aggregates.lookup id = some (.resolving n) → d.aggregates.lookup id = some (.resolving n)

instance : Std.Refl NoneStarted :=
  ⟨fun _ _ _ h => h⟩

instance : IsTrans Draft NoneStarted :=
  ⟨fun _ _ _ h h' id n hid => h id n (h' id n hid)⟩

theorem NoneStarted.of_eq (h : d'.aggregates = d.aggregates) : NoneStarted d d' :=
  fun _ _ hid => h ▸ hid

theorem NoneStarted.settled (h : NoneStarted d d') (hd : d.Settled) : d'.Settled :=
  fun id n hid => hd id n (h id n hid)

instance : KeepsShapes NoneStarted where
  struct members d ty d' h := by
    obtain ⟨n, -, -, rfl⟩ | ⟨-, -, -, rfl⟩ := Ensures.structType_cases ty d' h <;> exact .of_eq rfl
  array elem size d ty d' h := by
    obtain ⟨n, -, -, rfl⟩ | ⟨-, -, -, rfl⟩ := Ensures.arrayType_cases ty d' h <;> exact .of_eq rfl
  function result params d ty d' h := by
    obtain ⟨n, -, -, rfl⟩ | ⟨-, -, -, rfl⟩ := Ensures.functionType_cases ty d' h <;> exact .of_eq rfl

/-- An aggregate gets a state in which it is not being lowered. -/
theorem NoneStarted.setAggregate {state : AggregateState} {d₀ : Draft}
    (h : ∀ id' n, id' ≠ id → d.aggregates.lookup id' = some (.resolving n) →
      d₀.aggregates.lookup id' = some (.resolving n)) (hstate : ∀ n, state ≠ .resolving n) :
    NoneStarted d₀ { d with aggregates := (id, state) :: d.aggregates } := by
  intro id' n hid'
  by_cases hne : id' = id
  · subst hne
    have hself : state = .resolving n := by simpa using hid'
    exact absurd hself (hstate n)
  · exact h id' n hne ((Draft.Consistent.lookup_cons_ne hne).symm.trans hid')

/-- The aggregate is defined, or it is being lowered. -/
def Draft.Entered (d : Draft) (id : AggregateId) : Prop :=
  ∃ n, d.aggregates.lookup id = some (.resolving n) ∨ d.aggregates.lookup id = some (.resolved n)

namespace Keeps

/-- An aggregate whose members have been lowered is defined. -/
theorem resolve_noneStarted {depth : Nat} {d₀ : Draft} {n : Nat}
    (hinner : ∀ id define, Keeps NoneStarted (Lowering.aggregateType m depth id define))
    (hsame : d.aggregates = d₀.aggregates) :
    Ensures d (do
      Lowering.setAggregate id (.resolving n)
      let decl ← inRange (m.aggregate? id)
      let members ← decl.members.mapM fun ty => Lowering.ofTy m (Lowering.aggregateType m depth) ty true
      Emit.resolveStruct n members
      Lowering.setAggregate id (.resolved n)) fun _ d' => NoneStarted d₀ d' ∧ d'.Entered id := by
  refine .bind (.modify (Φ := fun _ d₁ => d₁ = _) rfl) ?_
  rintro _ _ rfl
  refine .lift_bind fun decl hdecl => ?_
  have hmembers : Keeps NoneStarted (decl.members.mapM fun ty =>
      Lowering.ofTy m (Lowering.aggregateType m depth) ty true) :=
    .mapM fun ty _ => .ofTy hinner ty true
  refine .bind (hmembers _) fun members d₂ hkept => .bind .resolveStruct_eq ?_
  rintro _ _ ⟨-, rfl⟩
  refine .modify ⟨.setAggregate (fun id' k hne hid' => ?_) nofun, n, .inr List.lookup_cons_self⟩
  rw [← hsame]
  exact (Draft.Consistent.lookup_cons_ne hne).symm.trans (hkept id' k hid')

theorem aggregateType_noneStarted : ∀ (depth : Nat) (id : AggregateId) (define : Bool) (d : Draft),
    Ensures d (Lowering.aggregateType m depth id define) fun _ d' =>
      NoneStarted d d' ∧ (define = true → d'.Entered id)
  | 0, _, _, _ => .throw
  | depth + 1, id, define, d => by
    have hinner (id : AggregateId) (define : Bool) : Keeps NoneStarted (Lowering.aggregateType m depth id define) :=
      fun d => .mono (aggregateType_noneStarted depth id define d) fun _ _ h => h.1
    refine .get_bind ?_
    dsimp only
    split
    · next n hn =>
      split
      · exact .bind (resolve_noneStarted hinner rfl) fun _ _ h => .pure ⟨h.1, fun _ => h.2⟩
      · next hdefine => exact .pure ⟨fun _ _ h => h, fun h => absurd h hdefine⟩
    · split
      · exact .lift_bind fun _ _ => .bind (.throw (Φ := fun _ _ => False)) fun _ _ h => h.elim
      · next hdefine => exact .pure ⟨fun _ _ h => h, fun h => absurd h hdefine⟩
    · next n hn => exact .pure ⟨fun _ _ h => h, fun _ => ⟨n, .inl hn⟩⟩
    · next n hn => exact .pure ⟨fun _ _ h => h, fun _ => ⟨n, .inr hn⟩⟩
    · next hnone =>
      refine .bind .declareStruct_eq ?_
      rintro _ _ ⟨-, rfl, rfl⟩
      refine .lift_bind fun decl _ => ?_
      split
      · refine .bind (.modify (Φ := fun _ d' => NoneStarted d d') (.setAggregate (fun _ _ _ h => h) nofun))
          fun _ _ h => ?_
        split
        · exact .bind (.throw (Φ := fun _ _ => False)) fun _ _ h => h.elim
        · next hdefine => exact .pure ⟨h, fun h => absurd h hdefine⟩
      · split
        · exact .bind (resolve_noneStarted hinner rfl) fun _ _ h => .pure ⟨h.1, fun _ => h.2⟩
        · next hdefine =>
          refine .bind (.modify (Φ := fun _ d' => NoneStarted d d') (.setAggregate (fun _ _ _ h => h) nofun))
            fun _ _ h => ?_
          exact .pure ⟨h, fun h => absurd h hdefine⟩

theorem lowerType_noneStarted {define : Bool} : Keeps NoneStarted (Lowering.lowerType m ty define) :=
  .ofTy (fun id define d => .mono (aggregateType_noneStarted _ id define d) fun _ _ h => h.1) ty define

end Keeps

/-- An aggregate has its members once its values have a type. -/
theorem Ensures.aggregate_resolved (hd : d.Settled) :
    Ensures d (Lowering.valueType m (.aggregate id)) fun _ d' => ∃ n, d'.aggregates.lookup id = some (.resolved n) := by
  refine .mono (Keeps.aggregateType_noneStarted _ id true d) ?_
  rintro _ d' ⟨hkept, hentered⟩
  obtain ⟨n, hn | hn⟩ := hentered rfl
  · exact absurd hn (hkept.settled hd id n)
  · exact ⟨n, hn⟩

/-! ### What stays -/

/-- A later draft has the types, string constants and names of functions of an earlier one, and its aggregates are in
order if they were. -/
structure Onward (m : Module) (d d' : Draft) : Prop where
  progress : Progress d d'
  noneStarted : NoneStarted d d'
  ordered : d.Ordered m → d'.Ordered m
  strings : ∀ (n : Nat) s, d.strings[n]? = some s → d'.strings[n]? = some s
  functions : ∀ func name, d.functions.lookup func = some name → d'.functions.lookup func = some name

namespace Onward

theorem refl (d : Draft) : Onward m d d :=
  ⟨.refl d, fun _ _ h => h, fun h => h, fun _ _ h => h, fun _ _ h => h⟩

theorem trans {d₁ d₂ d₃ : Draft} (h : Onward m d₁ d₂) (h' : Onward m d₂ d₃) : Onward m d₁ d₃ where
  progress := h.progress.trans h'.progress
  noneStarted id n hid := h.noneStarted id n (h'.noneStarted id n hid)
  ordered hd := h'.ordered (h.ordered hd)
  strings n s hn := h'.strings n s (h.strings n s hn)
  functions func name hf := h'.functions func name (h.functions func name hf)

instance : Std.Refl (Onward m) :=
  ⟨refl⟩

instance : IsTrans Draft (Onward m) :=
  ⟨fun _ _ _ => trans⟩

theorem later (h : Onward m d d') : Later d d' :=
  h.progress.later

/-- The types stay as they are. -/
theorem of_kept (h : TypesKept d d') (hstrings : ∀ (n : Nat) s, d.strings[n]? = some s → d'.strings[n]? = some s)
    (hfunctions : ∀ func name, d.functions.lookup func = some name → d'.functions.lookup func = some name) :
    Onward m d d' :=
  have hstep : TypeStep m d d' := .rest h
  ⟨hstep.progress, .of_eq h.aggregates, hstep.ordered, hstrings, hfunctions⟩

end Onward

/-- The string constants and the names of functions stay as they are. -/
structure SameSymbols (d d' : Draft) : Prop where
  strings : d'.strings = d.strings
  functions : d'.functions = d.functions

instance : Std.Refl SameSymbols :=
  ⟨fun _ => ⟨rfl, rfl⟩⟩

instance : IsTrans Draft SameSymbols :=
  ⟨fun _ _ _ h h' => ⟨h'.strings.trans h.strings, h'.functions.trans h.functions⟩⟩

instance : AllowsTypes SameSymbols :=
  ⟨fun _ _ _ _ _ _ _ => ⟨rfl, rfl⟩⟩

namespace Keeps

theorem lowerType_onward {define : Bool} : Keeps (Onward m) (Lowering.lowerType m ty define) := by
  intro d cType d' h
  have hsteps : TypeSteps m d d' := Keeps.lowerType_steps d cType d' h
  have hsame : SameSymbols d d' := Keeps.lowerType d cType d' h
  refine ⟨hsteps.progress, Keeps.lowerType_noneStarted d cType d' h, hsteps.ordered, ?_, ?_⟩
  · intro n s hn
    rwa [hsame.strings]
  · intro func name hf
    rwa [hsame.functions]

theorem signature_onward {c : Convention} {result : Ty} {params : List Ty} :
    Keeps (Onward m) (Lowering.signature m c result params) := by
  refine .signatureOf (fun _ => .lowerType_onward) fun f hf b => ?_
  obtain ⟨ty, -, rfl⟩ := List.mem_map.1 hf
  exact .lowerType_onward

end Keeps

/-- A request for a function starts no aggregate and adds no string constant. -/
theorem Requested.noneStarted {name : C.Name} (h : Requested m func d name d') :
    NoneStarted d d' ∧ d'.strings = d.strings := by
  cases h with
  | known => exact ⟨.of_eq rfl, rfl⟩
  | library =>
    unfold Draft.withFunction Draft.withHeader
    split <;> exact ⟨.of_eq rfl, rfl⟩
  | declared _ _ _ _ hname _ _ hsignature =>
    have hkept := Keeps.signature_onward (m := m) _ _ _ hsignature
    have hsame : SameSymbols _ _ := Keeps.ofSignature _ _ _ hsignature
    cases hname <;> exact ⟨fun id n hid => hkept.noneStarted id n hid, hsame.strings⟩

theorem Requested.onward {name : C.Name} (h : Requested m func d name d') : Onward m d d' := by
  obtain ⟨hstarted, hstrings⟩ := h.noneStarted
  refine ⟨h.typeSteps.progress, hstarted, h.typeSteps.ordered, fun n s hn => ?_, h.follows.names⟩
  rwa [hstrings]

namespace Keeps

theorem declareFunction_onward : Keeps (Onward m) (Lowering.declareFunction m func) :=
  fun _ _ _ h => (Ensures.declareFunction _ _ h).onward

theorem internString_onward {s : String} : Keeps (Onward m) (Emit.internString s) := by
  refine .bind .get fun d => ?_
  split
  · exact .pure
  · refine .bind .builtin fun _ => .bind (.modify fun d => ?_) fun _ => .bind (.modify fun d => ?_) fun _ => .pure
    · refine .of_kept ⟨rfl, rfl, rfl, rfl⟩ (fun n s hn => ?_) fun _ _ h => h
      obtain ⟨hlt, rfl⟩ := Array.getElem?_eq_some_iff.1 hn
      exact Array.getElem?_push_lt hlt
    · exact .of_kept ⟨rfl, rfl, rfl, rfl⟩ (fun _ _ h => h) fun _ _ h => h

theorem floatExpr_onward {format : FloatFormat} {bits : Nat} {l : C.Literal} :
    Keeps (Onward m) (Lowering.floatExpr format bits l) := by
  unfold Lowering.floatExpr
  split
  · exact .pure
  · refine .bind (.modify fun d => ?_) fun _ => .pure
    split
    · exact .refl d
    · exact .of_kept ⟨rfl, rfl, rfl, rfl⟩ (fun _ _ h => h) fun _ _ h => h

variable {compound : Bool}

theorem braced_onward {elems : List C.Expr} : Keeps (Onward m) (Lowering.braced m compound ty elems) :=
  .ite (.bind .lowerType_onward fun _ => .pure) .pure

theorem throughOptionals_onward {payload : Ty → Emit C.Expr} (h : ∀ ty, Keeps (Onward m) (payload ty)) :
    Keeps (Onward m) (Lowering.throughOptionals m compound payload ty) := by
  fun_induction Lowering.throughOptionals m compound payload ty with
  | case1 ty ih => exact .bind ih fun _ => .ite .pure .braced_onward
  | case2 => exact h _

theorem nestedArray_onward (ty : Ty) (vs : List C.Expr) :
    Keeps (Onward m) (Lowering.nestedArray m compound ty vs) := by
  fun_cases Lowering.nestedArray m compound ty vs with
  | case1 => exact .braced_onward
  | case2 elem inner size _ stride =>
    exact .bind (.mapM fun c _ => nestedArray_onward (.array elem inner) c) fun _ => .braced_onward
  | case3 => exact .braced_onward
  | case4 => exact .braced_onward
  | case5 => exact .throw
termination_by sizeOf ty

/-- Several constants at types of their own. -/
theorem parts_onward {fs : List (Ty → Emit C.Expr)} {tys : List Ty} (h : ∀ f ∈ fs, ∀ ty, Keeps (Onward m) (f ty)) :
    Keeps (Onward m) ((fs.zip tys).mapM fun x => x.1 x.2) :=
  .mapM fun x hx => h x.1 (List.of_mem_zip hx).1 x.2

mutual

/-- Lowering a constant leaves everything that was there. -/
theorem constantExpr_onward : ∀ (value : Const) (ty : Ty), Keeps (Onward m) (Lowering.constantExpr m compound value ty)
  | .null, ty => by
    unfold Lowering.constantExpr
    exact .ite .pure .braced_onward
  | .sint _, _ | .uint _, _ | .char _, _ | .bool _, _ | .void, _ => throughOptionals_onward fun _ => .pure
  | .float32 _, _ | .float64 _, _ => throughOptionals_onward fun _ => .floatExpr_onward
  | .str _, _ => throughOptionals_onward fun _ => .bind .internString_onward fun _ => .braced_onward
  | .enum _, _ => by
    refine throughOptionals_onward fun ty => ?_
    split
    · exact .pure
    · exact .throw
  | .array vs, _ => by
    refine throughOptionals_onward fun ty => .ite .braced_onward ?_
    split
    · exact .bind (.mapM fun f hf => constantExprs_onward vs f hf _) fun _ => .braced_onward
    · exact .throw
  | .sintArray _, _ | .uintArray _, _ =>
    throughOptionals_onward fun _ => .ite .braced_onward (nestedArray_onward _ _)
  | .float32Array _, _ | .float64Array _, _ =>
    throughOptionals_onward fun _ =>
      .ite .braced_onward (.bind (.mapM fun _ _ => .floatExpr_onward) fun _ => nestedArray_onward _ _)
  | .tuple vs, _ => by
    refine throughOptionals_onward fun ty => ?_
    split
    · exact .bind (.parts_onward (constantExprs_onward vs)) fun _ => .braced_onward
    · exact .throw
  | .aggregate vs, _ => by
    refine throughOptionals_onward fun ty => ?_
    split
    · exact .bind .lift fun _ => .bind (.parts_onward (constantExprs_onward vs)) fun _ => .braced_onward
    · exact .throw
  | .function _, _ => throughOptionals_onward fun _ => .bind .declareFunction_onward fun _ => .pure

theorem constantExprs_onward : ∀ (values : List Const),
    ∀ f ∈ Lowering.constantExprs m compound values, ∀ ty, Keeps (Onward m) (f ty)
  | [], _, hf => nomatch hf
  | v :: vs, f, hf => by
    obtain rfl | hf := List.mem_cons.1 hf
    · exact constantExpr_onward v
    · exact constantExprs_onward vs f hf

end

end Keeps

end CBackend
