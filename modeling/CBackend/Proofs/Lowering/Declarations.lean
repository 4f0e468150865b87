import CBackend.Proofs.Lowering.Growth
import CBackend.Proofs.Lowering.Types

/-!
# Functions that are requested

What a draft gains when the name of a function is asked for. A function that has a name keeps it. A function
of the C library brings its header, and every other one its declaration; its body is queued if it has one.
-/

namespace CBackend

open IR
open C (CType)

/-- The draft with a header included. -/
def Draft.withHeader (d : Draft) (header : String) : Draft :=
  if d.unit.includes.contains header then d
  else { d with unit.includes := d.unit.includes.push header }

/-- The draft with a function named and queued if it has a body. -/
def Draft.withFunction (d : Draft) (func : FuncId) (name : C.Name) (hasBody : Bool) : Draft :=
  { d with
    functions := (func, name) :: d.functions
    queue := if hasBody then d.queue ++ [func] else d.queue }

/-- Whether a function that is not from the C library is visible in its own file only. -/
def IR.Function.isStatic (f : Function) : Bool :=
  f.symbolName.isNone && !f.isExternal

/-- The name of a function that is not from the C library, and the next free number. -/
inductive NameFor (f : Function) : Draft → C.Name → Draft → Prop
  | symbol {d : Draft} {symbol : String} (h : f.symbolName = some symbol) : NameFor f d (.symbol symbol) d
  | external {d : Draft} (h : f.symbolName = none) (hexternal : f.isExternal = true) :
      NameFor f d (.symbol f.name) d
  | fresh {d : Draft} (h : f.symbolName = none) (hexternal : f.isExternal = false) :
      NameFor f d (.function d.functionCounter) { d with functionCounter := d.functionCounter + 1 }

/-- The effect of asking for the name of a function. -/
inductive Requested (m : Module) (func : FuncId) : Draft → C.Name → Draft → Prop
  | known {d : Draft} {name : C.Name} (h : d.functions.lookup func = some name) : Requested m func d name d
  | library {d : Draft} {f : Function} {header : String} (hnew : d.functions.lookup func = none)
      (hf : m.function? func = some f) (hintrinsic : f.isIntrinsic = false)
      (hheader : f.libraryHeader = some header) :
      Requested m func d (.symbol (f.symbolName.getD f.name))
        ((d.withHeader header).withFunction func (.symbol (f.symbolName.getD f.name)) false)
  | declared {d d₁ d₂ : Draft} {f : Function} {name : C.Name} {c : Convention} {params : List Ty}
      {result : CType} {types : List CType} (hnew : d.functions.lookup func = none)
      (hf : m.function? func = some f) (hintrinsic : f.isIntrinsic = false)
      (hheader : f.libraryHeader = none) (hname : NameFor f d name d₁)
      (hc : Convention.ofFunction m func = .ok c) (hparams : m.paramTypes? f = some params)
      (hsignature : Lowering.signature m c f.result params (d₁.withFunction func name f.body.isSome) =
        .ok ((result, types), d₂)) :
      Requested m func d name
        { d₂ with unit.prototypes := d₂.unit.prototypes.push ⟨f.isStatic, result, name, types⟩ }

namespace Ensures

variable {m : Module} {func : FuncId} {f : Function} {name : C.Name} {d d₁ : Draft}

/-- A function that is not from the C library is named, queued and declared. -/
theorem declaration {isStatic : Bool} (hnew : d.functions.lookup func = none)
    (hf : m.function? func = some f) (hintrinsic : f.isIntrinsic = false)
    (hheader : f.libraryHeader = none) (hname : NameFor f d name d₁)
    (hstatic : isStatic = f.isStatic) :
    Ensures d₁ (do
      Emit.registerFunction func name f.body.isSome
      let convention ← Convention.ofFunction m func
      let params ← inRange (m.paramTypes? f)
      let (result, params) ← Lowering.signature m convention f.result params
      Emit.addPrototype { isStatic, result, name, params }
      Pure.pure name) (Requested m func d) := by
  refine .bind (.modify (Φ := fun _ d₂ => d₂ = d₁.withFunction func name f.body.isSome) rfl) ?_
  rintro _ _ rfl
  refine .lift_bind fun c hc => .lift_bind fun params hparams => ?_
  refine .bind (Q := fun r d₂ => Lowering.signature m c f.result params
    (d₁.withFunction func name f.body.isSome) = .ok (r, d₂)) (fun _ _ h => h) ?_
  rintro ⟨result, types⟩ d₂ hsignature
  refine .bind (.modify (Φ := fun _ d₃ => d₃ = { d₂ with
    unit.prototypes := d₂.unit.prototypes.push ⟨isStatic, result, name, types⟩ }) rfl) ?_
  rintro _ _ rfl
  subst hstatic
  exact .pure (.declared hnew hf hintrinsic hheader hname hc (eq_some_of_inRange hparams) hsignature)

/-- Asking for the name of a function. -/
theorem declareFunction : Ensures d (Lowering.declareFunction m func) (Requested m func d) := by
  refine .get_bind (.pure_bind ?_)
  split
  · next name hname => exact .pure (.known hname)
  · next hnew =>
    refine .lift_bind fun f hf => .when (Q := fun d₁ => d = d₁ ∧ f.isIntrinsic = false) (fun _ => .throw)
      (fun h => ⟨rfl, by simpa using h⟩) ?_
    rintro _ ⟨rfl, hintrinsic⟩
    have hf := eq_some_of_inRange hf
    dsimp only
    split
    · next header hheader =>
      refine .bind (.modify (Φ := fun _ d₁ => d₁ = d.withHeader header) rfl) ?_
      rintro _ _ rfl
      exact .bind (.modify (Φ := fun _ d₁ => d₁ = Draft.withFunction _ func _ false) rfl) fun _ _ h =>
        .pure (h ▸ .library hnew hf hintrinsic hheader)
    · next hheader =>
      split
      · next symbol hsymbol =>
        refine .pure_bind (.declaration hnew hf hintrinsic hheader (.symbol hsymbol) ?_)
        simp [Function.isStatic, hsymbol]
      · next hsymbol =>
        split
        · next hexternal =>
          refine .pure_bind (.declaration hnew hf hintrinsic hheader (.external hsymbol hexternal) ?_)
          simp [Function.isStatic, hsymbol, hexternal]
        · next hexternal =>
          have hexternal : f.isExternal = false := by simpa using hexternal
          refine .bind (Q := fun name d₁ => NameFor f d name d₁) ?_ fun name d₁ hname => ?_
          · refine .get_bind ?_
            exact .bind (.modify (Φ := fun _ d₁ => NameFor f d _ d₁) (.fresh hsymbol hexternal)) fun _ _ h => .pure h
          · refine .pure_bind (.declaration hnew hf hintrinsic hheader hname ?_)
            simp [Function.isStatic, hsymbol, hexternal]

end Ensures

namespace Requested

variable {m : Module} {func : FuncId} {name : C.Name} {d d' : Draft}

/-- The function of a request is known from then on. -/
theorem lookup_eq (h : Requested m func d name d') : d'.functions.lookup func = some name := by
  cases h with
  | known h => exact h
  | library => exact List.lookup_cons_self
  | @declared _ d₂ _ _ _ _ _ _ _ _ _ _ _ _ _ hsignature =>
    have hsame : SameBodies _ d₂ := Keeps.ofSignature _ _ _ hsignature
    change d₂.functions.lookup func = _
    rw [hsame.functions]
    exact List.lookup_cons_self

/-- A request leaves the bodies alone. -/
theorem bodies_eq (h : Requested m func d name d') :
    d'.func = d.func ∧ d'.bodies = d.bodies ∧ d'.unit.definitions = d.unit.definitions := by
  cases h with
  | known => exact ⟨rfl, rfl, rfl⟩
  | library =>
    unfold Draft.withFunction Draft.withHeader
    split <;> exact ⟨rfl, rfl, rfl⟩
  | declared _ _ _ _ hname _ _ hsignature =>
    have hsame : SameBodies _ _ := Keeps.ofSignature _ _ _ hsignature
    cases hname <;> exact ⟨hsame.func, hsame.bodies, hsame.definitions⟩

theorem outside (h : Requested m func d name d') (hd : Outside d) : Outside d' := by
  have hcons {name : C.Name} (hname : Mentions.locals name = []) :
      ∀ entry ∈ (func, name) :: d.functions, Mentions.locals entry.2 = [] :=
    List.forall_mem_cons.2 ⟨hname, hd.2⟩
  cases h with
  | known => exact hd
  | library =>
    unfold Draft.withFunction Draft.withHeader
    split <;> exact ⟨hd.1, hcons rfl⟩
  | @declared _ d₂ _ _ _ _ _ _ _ _ _ _ hname _ _ hsignature =>
    have hsame : SameBodies _ d₂ := Keeps.ofSignature _ _ _ hsignature
    refine ⟨?_, ?_⟩
    · change ∀ entry ∈ d₂.globals, _
      rw [hsame.globals]
      cases hname <;> exact hd.1
    · change ∀ entry ∈ d₂.functions, _
      rw [hsame.functions]
      cases hname <;> exact hcons rfl

end Requested

/-! ### The queue -/

/-- The functions that are queued are reached, and none is from the C library. -/
def Awaited (m : Module) (d : Draft) : Prop :=
  ∀ func ∈ d.queue, m.Reached (.func func) ∧ ∀ f, m.function? func = some f → f.libraryHeader = none

namespace Awaited

variable {m : Module} {func : FuncId} {name : C.Name} {d d' : Draft}

theorem of_requested (hd : Awaited m d) (hreached : m.Reached (.func func)) (h : Requested m func d name d') :
    Awaited m d' := by
  cases h with
  | known => exact hd
  | library =>
    unfold Draft.withFunction Draft.withHeader
    split <;> exact hd
  | @declared d₁ d₂ f _ _ _ _ _ _ hf _ hheader hname _ _ hsignature =>
    have hsame : SameBodies _ d₂ := Keeps.ofSignature _ _ _ hsignature
    have hqueue : d₁.queue = d.queue := by cases hname <;> rfl
    intro func' hfunc'
    change func' ∈ d₂.queue at hfunc'
    rw [hsame.queue] at hfunc'
    have hmem : func' ∈ d.queue ∨ func' = func := by
      change func' ∈ (if f.body.isSome then d₁.queue ++ [func] else d₁.queue) at hfunc'
      rw [hqueue] at hfunc'
      split at hfunc'
      · simpa using hfunc'
      · exact .inl hfunc'
    obtain hmem | rfl := hmem
    · exact hd func' hmem
    · refine ⟨hreached, fun f' hf' => ?_⟩
      cases hf.symm.trans hf'
      exact hheader

theorem of_requests (hd : Awaited m d) (h : Relation.ReflTransGen (Request m) d d') : Awaited m d' := by
  induction h with
  | refl => exact hd
  | @tail d₁ d₂ _ hstep ih =>
    cases hstep with
    | body | value | header | statics => exact ih
    | type hrun =>
      have hsame : SameBodies d₁ d₂ := Keeps.lowerType _ _ _ hrun
      rwa [Awaited, hsame.queue]
    | function hreached hrun => exact ih.of_requested hreached (Ensures.declareFunction _ _ hrun)

end Awaited

end CBackend
