import CBackend.Generate
import CBackend.Proofs.Bracketing.Nodes
import CBackend.Proofs.Lowering.Functions
import CBackend.Proofs.Registration

/-!
# Whole modules fail no check

A function has as many C parameters as it needs, and the tables of types stay in order from one function to the next.
-/

namespace CBackend

open IR Flow Lowering
open C (CType)

/-- A new draft fails no check, and its types are in order. -/
theorem Draft.harmless_new (options : Options) :
    Harmless true (Draft.new options) ∧ ∀ d, Draft.new options = .ok d → d.Consistent := by
  refine ⟨?_, fun d hd => ?_⟩
  · rw [Draft.new_eq]
    cases Builtin.all.find? fun k => (options.target.aliased? k).isNone with
    | none => exact .ok
    | some => exact .error rfl
  · cases Draft.eq_registered hd
    exact ⟨rfl, rfl, rfl, rfl, by rintro _ _ ⟨⟩, by rintro _ _ ⟨⟩, by rintro _ _ _ _ ⟨⟩⟩

/-! ### Parameters -/

namespace Steps

variable {m m' : Module} {os : List Opening} (hm : m.ExtendedBy m')

include hm

/-- There is a C type for each parameter that is passed. -/
theorem parameters {params : List (VarId × ParamPassing)} {types : List CType}
    (h : (params.map Prod.snd).countP (· != .omitted) ≤ types.length) :
    Stays true ⟨os, false⟩ (parameters m params types) (parameters m' params types) := by
  have hvalue {passing : ParamPassing} {ty : CType} {n : Nat} : Quietly true (parameterValue passing ty n) := by
    unfold parameterValue
    cases ty.pointee? with
    | some =>
      exact .ite (fun _ => .mono .referenceValue fun _ _ => trivial) fun _ => .mono .variableValue fun _ _ => trivial
    | none => exact .mono .variableValue fun _ _ => trivial
  induction params generalizing types with
  | nil => exact .pure trivial
  | cons param rest ih =>
    obtain ⟨var, passing⟩ := param
    by_cases hpassed : passing = .omitted
    · subst hpassed
      exact ih (by simpa using h)
    cases types with
    | nil => simp [hpassed] at h
    | cons ty types =>
      have hrest : (rest.map Prod.snd).countP (· != .omitted) ≤ types.length := by simpa [hpassed] using h
      cases passing with
      | omitted => exact absurd rfl hpassed
      | _ =>
        exact .bind .freshNumber fun _ _ => .bind (.quiet hvalue) fun _ _ =>
          .bind (.bindVariableWithin hm hm.nestingBound_le) fun _ _ => .bind (ih hrest) fun _ _ => .pure trivial

theorem fallOffEnd {P : Place} {func : FuncId} {f : Function} :
    Stays true P (fallOffEnd m func f) (fallOffEnd m' func f) := by
  unfold Lowering.fallOffEnd mayEndInZero
  rw [hm.entry]
  refine .bind .getFunction fun returns _ => ?_
  cases returns with
  | nothing => exact .pure trivial
  | _ =>
    refine .ite (fun _ => ?_) fun _ => .unreachable
    exact .bind (.quiet .builtin) fun _ _ => .bind (.quiet .integer) fun _ _ => .returnWith

end Steps

variable {m m' : Module} {d : Draft}

/-- A function that begins is in order once the parameter for its result is known. -/
theorem Safely.resultParameter {c : Convention} {count : Nat} {types : List CType}
    (hd : d.Consistent) (hfunc : d.func = { indent := 1, returns := c.result })
    (htypes : Quietly.IsSignature c count types) :
    Safely true d (resultParameter c types) fun r d' =>
      d'.Consistent ∧ d'.func.Sane ∧ d'.func.cleanups = [] ∧ r.2.length = count := by
  unfold Quietly.IsSignature at htypes
  split at htypes
  · next hresult =>
    obtain ⟨p, passed, hp, rfl, hcount⟩ := htypes
    obtain ⟨⟨result, level⟩, hpointee⟩ := Option.isSome_iff_exists.1 hp
    have hpointer : c.hasResultPointer = true := by rw [Convention.hasResultPointer, hresult]; rfl
    unfold Lowering.resultParameter
    rw [hpointer]
    dsimp only
    refine .bind (Q := fun _ d' => ∃ n, d' = { d with func.counter := n }) (.ofRun rfl ⟨_, rfl⟩) ?_
    · rintro n _ ⟨_, rfl⟩
      rw [hpointee]
      have hvalue {name : C.Name} {isConst : Bool} :
          Quietly true (Emit.referenceValue name result isConst) _ (Value.Placed true) :=
        .referenceValue
      refine .bind (hvalue _ fun _ => { hd with }) ?_
      rintro v d' ⟨hq, hd', hv⟩
      refine .modifyFunction_bind (.pure ⟨{ hd' rfl with }, ⟨?_, fun _ => ⟨v, rfl, hv rfl⟩⟩, ?_, hcount⟩)
      · rw [hq.func, hfunc]
        exact Nat.zero_le _
      · rw [hq.func, hfunc]
  · next hresult =>
    have hpointer : c.hasResultPointer = false := beq_eq_false_iff_ne.2 hresult
    unfold Lowering.resultParameter
    rw [hpointer]
    refine .pure ⟨hd, ⟨?_, ?_⟩, ?_, htypes⟩
    · rw [hfunc]
      exact Nat.zero_le _
    · rw [hfunc]
      exact fun h => absurd h hresult
    · rw [hfunc]

theorem Harmless.mainLines {c : Convention} {name : C.Name} {f : Function} :
    Harmless true (mainLines c name f) := by
  refine .ite (fun _ => .error rfl) fun _ => ?_
  cases c.result with
  | nothing | direct => exact .ok
  | indirect | reference => exact .error rfl

theorem Quietly.nextQueued? : Quietly true Emit.nextQueued? := by
  refine .bind .get fun d _ => ?_
  cases d.queue with
  | nil => exact .pure trivial
  | cons => exact .bind .modifyRest fun _ _ => .pure trivial

/-- A computation between functions fails no check, keeps the types in order, and has all its results again in the
second form. -/
def Orderly {α : Type} (x : Emit α) (y : Emit α := x) : Prop :=
  ∀ d : Draft, d.Consistent → Safely true d x (fun _ d' => d'.Consistent) y

namespace Orderly

variable {α β : Type}

theorem ofQuietly {x y : Emit α} {Φ : α → Prop} (h : Quietly true x y Φ) : Orderly x y :=
  fun d hd => (h d fun _ => hd).mono fun _ _ h => h.2.1 rfl

theorem pure {a : α} : Orderly (Pure.pure a) :=
  fun _ hd => .pure hd

theorem bind {x y : Emit β} {f g : β → Emit α} (hx : Orderly x y) (hf : ∀ b, Orderly (f b) (g b)) :
    Orderly (x >>= f) (y >>= g) :=
  fun d hd => .bind (hx d hd) fun b d' hd' => hf b d' hd'

theorem forM {l : List β} {f g : β → Emit PUnit} (hf : ∀ b, Orderly (f b) (g b)) : Orderly (l.forM f) (l.forM g) := by
  induction l with
  | nil => exact pure
  | cons b l ih => exact bind (hf b) fun _ => ih

theorem length_of_paramTypes? {f : Function} {tys : List Ty} (h : m.paramTypes? f = some tys) :
    f.params.length = tys.length := by
  unfold Module.paramTypes? at h
  generalize f.params = params at h
  induction params generalizing tys with
  | nil =>
    cases h
    rfl
  | cons param params ih =>
    rw [List.mapM_cons] at h
    obtain ⟨ty, -, h⟩ := Option.bind_eq_some_iff.1 h
    obtain ⟨tys', htys', h⟩ := Option.bind_eq_some_iff.1 h
    cases h
    exact congrArg (· + 1) (ih htys')

/-- The number of parameters that are passed does not depend on what the parameters are. -/
theorem countP_zip {ps : List VarId} {tys : List Ty} {passings : List ParamPassing}
    (h : ps.length = tys.length) :
    ((ps.zip passings).map Prod.snd).countP (· != .omitted) =
      ((tys.zip passings).map Prod.snd).countP (· != .omitted) := by
  congr 1
  induction passings generalizing ps tys with
  | nil => simp
  | cons passing passings ih =>
    cases ps <;> cases tys <;> first | rfl | cases h | skip
    next ps _ tys => exact congrArg (passing :: ·) (ih (Nat.succ.inj h))

/-- No cleanup is left at the end of a function. -/
theorem endFunction {isStatic : Bool} {result : CType} {name : C.Name} {params : List (CType × Nat)}
    (hd : d.Consistent) (hcleanups : d.func.cleanups = []) :
    Safely true d (Emit.endFunction isStatic result name params) fun _ d' => d'.Consistent := by
  refine .get_bind ?_
  refine .bind (.modify (Φ := fun _ d' => d' = { d with func := {} }) rfl) ?_
  rintro _ _ rfl
  rw [hcleanups]
  exact .modify (hd.same rfl rfl rfl)

theorem functionBody {w w' : Walk} (hw : w.Bracketed true m m' w') {func : FuncId} :
    Orderly (functionBody m w func) (functionBody m' w' func) := by
  have hm := hw.module
  intro d hd
  refine .bind (Safely.lift (Φ := fun f d' => d' = d) (.found hm.function?) fun _ _ => rfl) ?_
  rintro f _ rfl
  dsimp only
  cases hbody : f.body with
  | none => exact .pure hd
  | some body =>
    refine .bind (ofQuietly (.declareFunction hm) _ hd) fun name d₁ hd₁ => ?_
    refine .bind (Safely.lift (Φ := fun _ d' => d' = d₁) (.ofFunction hm) fun _ _ => rfl) ?_
    rintro c d₁ rfl
    refine .bind (Safely.lift (Φ := fun tys d' => d' = d₁ ∧ m.paramTypes? f = some tys) (.found hm.paramTypes?)
      fun _ h => ⟨rfl, eq_some_of_inRange h⟩) ?_
    rintro tys d₁ ⟨rfl, htys⟩
    refine .bind (Quietly.signature hm _ fun _ => hd₁) ?_
    rintro ⟨result, types⟩ d₂ ⟨-, hd₂, htypes⟩
    dsimp only at htypes ⊢
    refine .bind (.modify (Φ := fun _ d' => d' = { d₂ with func := { indent := 1, returns := c.result } }) rfl) ?_
    rintro _ _ rfl
    refine .getFunction_bind ?_
    refine .bind (Safely.resultParameter { hd₂ rfl with } rfl htypes) ?_
    rintro ⟨resultParams, types⟩ d₃ ⟨hd₃, hsane, hcleanups, hlength⟩
    dsimp only at hlength ⊢
    have hscope : Opening.Enters (.scope 0 true) d₃.func d₃.func := by
      have h := Opening.Enters.scope (f := d₃.func) (b := true)
      rwa [hcleanups] at h
    have hplace : AtPlace d₃.func [.scope 0 true] false d₃.func :=
      ⟨d₃.func, d₃.func, .refl _, hscope, .refl _⟩
    have hparams : ((f.params.zip c.params).map Prod.snd).countP (· != .omitted) ≤ types.length := by
      rw [countP_zip (length_of_paramTypes? htys), hlength]
    have hsane (_ : true = true) := hsane
    refine .bind (Steps.parameters hm hparams d₃.func d₃ hsane (fun _ => hd₃) hplace) ?_
    rintro params d₄ ⟨hd₄, hp₄, -⟩
    refine .bind (Steps.statements hw d₃.func d₄ hsane hd₄ hp₄) ?_
    rintro _ d₅ ⟨hd₅, hp₅, -⟩
    refine .bind (Steps.closeScope hw d₃.func d₅ hsane hd₅ hp₅) ?_
    rintro _ d₆ ⟨hd₆, hp₆, -⟩
    have hend (d₇ : Draft) (hd₇ : d₇.Consistent) (hp₇ : AtPlace d₃.func [] true d₇.func) :
        Safely true d₇ (Emit.endFunction f.symbolName.isNone result name (resultParams ++ params))
          fun _ d' => d'.Consistent :=
      endFunction hd₇ ((Framed.balanced hp₇ rfl).trans hcleanups)
    refine .getFunction_bind (.ite (fun _ => hend d₆ (hd₆ rfl) hp₆) fun _ => ?_)
    refine .bind (Steps.fallOffEnd hm d₃.func d₆ hsane hd₆ hp₆) ?_
    rintro _ d₇ ⟨hd₇, hp₇, -⟩
    exact hend d₇ (hd₇ rfl) hp₇

theorem mainWrapper (hm : m.ExtendedBy m') {entry : FuncId} :
    Orderly (mainWrapper m entry) (mainWrapper m' entry) := by
  refine ofQuietly (Φ := fun _ => True) (.bind (.declareFunction hm) fun name _ => .ite (fun _ => .pure trivial) ?_)
  refine fun _ => .bind (.lift (.found hm.function?)) fun f _ => .bind (.lift (.ofFunction hm)) fun c _ => ?_
  exact .bind (.lift .mainLines) fun lines _ =>
    .modifyRest

theorem drainQueue {w : Walk} (hw : w.Bracketed true m) : ∀ n, Orderly (Lowering.drainQueue m w n)
  | 0 => pure
  | n + 1 => by
    refine bind (ofQuietly .nextQueued?) fun next => ?_
    cases next with
    | none => exact pure
    | some => exact bind (functionBody hw) fun _ => drainQueue hw n

theorem requestSources (hm : m.ExtendedBy m') :
    Orderly (requestSources m) (requestSources m') := by
  unfold Lowering.requestSources
  rw [hm.globals, hm.roots, hm.entry]
  exact bind (forM fun _ => ofQuietly (.defineGlobal hm)) fun _ =>
    bind (forM fun _ => ofQuietly (.discard (.declareFunction hm))) fun _ =>
      forM fun _ => ofQuietly (.discard (.declareFunction hm))

theorem addMain (hm : m.ExtendedBy m') : Orderly (addMain m) (addMain m') := by
  unfold Lowering.addMain
  rw [hm.entry]
  exact forM fun _ => mainWrapper hm

theorem wholeModule : Orderly (wholeModule m) := by
  have hw : (Walk.ofModule m).Bracketed true m := walk_bracketed true m _
  rw [wholeModule_eq]
  exact bind (requestSources (.refl m)) fun _ => bind (drainQueue hw _) fun _ => addMain (.refl m)

end Orderly

end CBackend
