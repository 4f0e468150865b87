import CBackend.Proofs.Linkage.Calls
import CBackend.Proofs.Linkage.Modules

/-!
# Signatures agree

The signature of a function is computed when it is declared and again when it is defined, when its type is lowered and
when it is called, and the tables of types change in between. It is the same at all of these places: the definition has
the head that was declared, the pointer type of the function has its result and its parameters, and a call passes one C
argument for each C parameter.

## Main definitions

* `TypedefAgrees` : a pointer type to functions has the types of a declaration.
* `DirectCallsAgree`, `IndirectCallsAgree` : calls pass as many C arguments as there are C parameters.
* `SignaturesAgree` : all signatures of a draft agree.

## Main results

* `signatures_agree` : the signatures of every module agree.
-/

namespace CBackend

open IR
open C (CType Prototype)

/-- The pointer type that lowering a function type gives, at whatever moment, has the result and the parameters of a
declaration of the draft. -/
def TypedefAgrees (m : Module) (ty : Ty) (d : Draft) (result : CType) (params : List CType) : Prop :=
  ∀ define d₁ c d₂ d₃, Lowering.lowerType m ty define d₁ = .ok (c, d₂) → Later d₂ d₃ → Later d d₃ →
    ∃ n, c = { head := .function n } ∧ d₃.unit.types.functions.get? n = some ⟨result, params⟩

/-- Every direct call of a function with as many arguments as parameters is written with the given number of C
arguments. -/
def DirectCallsAgree (m : Module) (func : FuncId) (arity : Nat) : Prop :=
  ∀ w e args order dest d v d' c, e.kind = .call func args order → Lowering.exprKind m w e dest d = .ok (v, d') →
    Convention.ofFunction m func = .ok c → args.length = c.params.length →
    ∃ name d₁ cargs, Lowering.declareFunction m func d = .ok (name, d₁) ∧
      CallWritten m w (.name name) c args order d₁ v d' cargs ∧ cargs.length = arity

/-- Every call through a value evaluates the value and then is written by the convention of its type. With as many
arguments as parameters there are as many C arguments as the pointer type has C parameters. -/
def IndirectCallsAgree (m : Module) : Prop :=
  ∀ w e callee args dest d v d', e.kind = .indirectCall callee args → Lowering.exprKind m w e dest d = .ok (v, d') →
    ∃ result params c value value' d₁ d₂ ce cargs, Lowering.exprTy m callee = .ok (.function result params) ∧
      Convention.compute m result params = .ok c ∧ w.expr callee none d = .ok (value, d₁) ∧
      Kept value d₁ value' d₂ ∧ value'.asCallee = .ok ce ∧ CallWritten m w ce c args .regular d₂ v d' cargs ∧
      (args.length = params.length → cargs.length = c.arity ∧ ∀ define d₃ t d₄,
        Lowering.lowerType m (.function result params) define d₃ = .ok (t, d₄) → ∃ n shape,
          t = { head := .function n } ∧ d₄.unit.types.functions.get? n = some shape ∧
            shape.params.length = cargs.length)

/-- The signatures of the functions of a draft agree. -/
structure SignaturesAgree (m : Module) (d : Draft) : Prop where
  /-- A definition has the head that was declared. The pointer type of the function has its types, and the direct
  calls have its number of parameters. -/
  declared : ∃ proto : FuncId → Prototype, d.unit.prototypes.toList = (d.declared m).map proto ∧
    d.unit.definitions.toList.map (·.head) = (d.defined m).map proto ++ d.mainHeads m ∧
    ∀ func ∈ d.declared m, (∃ ty, m.functionType? func = some ty ∧
        TypedefAgrees m ty d (proto func).result (proto func).params) ∧
      DirectCallsAgree m func (proto func).params.length
  /-- The calls of the functions of the C library follow the same convention. -/
  direct : ∀ func f c, m.function? func = some f → f.isIntrinsic = false → Convention.ofFunction m func = .ok c →
    DirectCallsAgree m func c.arity
  indirect : IndirectCallsAgree m

variable {m : Module} {d : Draft} {func : FuncId}

/-- The pointer type of a function type has the signature that can be looked up. -/
theorem typedef_of_lowerType {result : Ty} {params : List Ty} {define : Bool} {t : CType} {d₁ d₂ d₃ : Draft}
    (h : Lowering.lowerType m (.function result params) define d₁ = .ok (t, d₂)) (hlater : Later d₂ d₃) :
    ∃ c n r ps, Convention.compute m result params = .ok c ∧ t = { head := .function n } ∧
      signatureOf? c (typeOf? m result) (typesOf? m params) d₃ = some (r, ps) ∧
      d₃.unit.types.functions.get? n = some ⟨r, ps⟩ := by
  have htype := stable_typeOf? m _ _ _ _ hlater (Finds.lowerType m _ define _ _ _ h).2
  rw [typeOf?] at htype
  obtain ⟨c, hc, htype⟩ := Option.bind_eq_some_iff.1 htype
  obtain ⟨⟨r, ps⟩, hsignature, htype⟩ := Option.bind_eq_some_iff.1 htype
  obtain ⟨n, hn, rfl⟩ := Option.map_eq_some_iff.1 htype
  obtain ⟨hlt, hshape, -⟩ := Array.findIdx?_eq_some_iff_getElem.1 hn
  exact ⟨c, n, r, ps, checked_eq_some_iff.1 hc, rfl, hsignature, Array.getElem?_eq_some_iff.2 ⟨hlt, eq_of_beq hshape⟩⟩

/-- The pointer type of a declared function has the types of its declaration. -/
theorem typedef_of_prototype {p : Prototype} (hp : prototype? m func d = some p) :
    ∃ ty, m.functionType? func = some ty ∧ TypedefAgrees m ty d p.result p.params := by
  obtain ⟨f, c, params, result, types, name, hf, hc, hparams, hs, -, rfl⟩ := prototype?_eq_some_iff.1 hp
  refine ⟨.function f.result params, by simp [Module.functionType?, hf, hparams], ?_⟩
  intro define d₁ t d₂ d₃ hrun hlater₂ hlater
  obtain ⟨c', n, r, ps, hc', rfl, hsignature, hget⟩ := typedef_of_lowerType hrun hlater₂
  cases (Convention.compute_of_ofFunction hf hparams hc).symm.trans hc'
  cases (stable_signatureOf? m c f.result params d d₃ _ hlater hs).symm.trans hsignature
  exact ⟨n, rfl, hget⟩

/-- A declaration has as many parameters as the convention of its function says. -/
theorem length_of_prototype {p : Prototype} {c : Convention} (hp : prototype? m func d = some p)
    (hc : Convention.ofFunction m func = .ok c) : p.params.length = c.arity := by
  obtain ⟨f, c', params, result, types, name, hf, hc', hparams, hs, -, rfl⟩ := prototype?_eq_some_iff.1 hp
  cases hc.symm.trans hc'
  refine length_of_signatureOf? ?_ hs
  rw [typesOf?_eq_map, List.length_map,
    Convention.length_params_of_compute (Convention.compute_of_ofFunction hf hparams hc)]

/-- A direct call has as many C arguments as the convention says. -/
theorem directCallsAgree {f : Function} {c : Convention} (hf : m.function? func = some f)
    (hintrinsic : f.isIntrinsic = false) (hc : Convention.ofFunction m func = .ok c) :
    DirectCallsAgree m func c.arity := by
  intro w e args order dest d v d' c' hkind hrun hc' hlength
  cases hc.symm.trans hc'
  have hcall : Lowering.directCall m w func f args order dest d = .ok (v, d') := by
    have hnone : f.intrinsic = none := by simpa [Function.isIntrinsic] using hintrinsic
    have heq : Lowering.call m w func args order e.ty dest = Lowering.directCall m w func f args order dest := by
      have hget : (liftM (inRange (some f)) : Emit Function) = pure f := rfl
      simp only [Lowering.call, hf, hget, pure_bind, hnone]
    rw [Lowering.exprKind, hkind] at hrun
    exact heq ▸ hrun
  obtain ⟨name, d₁, c', cargs, hname, hc', hcall⟩ := Ensures.directCall _ _ hcall
  cases hc.symm.trans hc'
  exact ⟨name, d₁, cargs, hname, hcall, hcall.length_eq hlength⟩

theorem indirectCallsAgree (m : Module) : IndirectCallsAgree m := by
  intro w e callee args dest d v d' hkind hrun
  have hcall : Lowering.indirectCall m w callee args dest d = .ok (v, d') := by
    rwa [Lowering.exprKind, hkind] at hrun
  obtain ⟨result, params, c, value, value', d₁, d₂, ce, cargs, hty, hc, hvalue, hkept, hce, hcall⟩ :=
    Ensures.indirectCall _ _ hcall
  refine ⟨result, params, c, value, value', d₁, d₂, ce, cargs, hty, hc, hvalue, hkept, hce, hcall, fun hlength => ?_⟩
  have hparams := Convention.length_params_of_compute hc
  have hcargs := hcall.length_eq (hlength.trans hparams.symm)
  refine ⟨hcargs, fun define d₃ t d₄ hrun => ?_⟩
  obtain ⟨c', n, r, ps, hc', rfl, hsignature, hget⟩ := typedef_of_lowerType hrun (.refl d₄)
  cases hc.symm.trans hc'
  refine ⟨n, ⟨r, ps⟩, rfl, hget, ?_⟩
  rw [hcargs]
  exact length_of_signatureOf? (by rw [typesOf?_eq_map, List.length_map, hparams]) hsignature

/-- Declarations, definitions, pointer types and calls agree on the signatures of functions. -/
theorem signatures_agree {options : Options} (h : generateDraft m options = .ok d) : SignaturesAgree m d := by
  obtain ⟨-, -, -, -, -, -, hemitted⟩ := exists_stages h
  obtain ⟨proto, hproto, hprototypes, hdefinitions⟩ := hemitted.exists_proto
  refine ⟨⟨proto, hprototypes, hdefinitions, fun func hfunc => ?_⟩, fun func f c hf hi hc =>
    directCallsAgree hf hi hc, indirectCallsAgree m⟩
  have hp := hproto func hfunc
  obtain ⟨f, hf, hi⟩ := hemitted.known func (List.mem_filter.1 hfunc).1
  obtain ⟨-, c, -, -, -, -, -, hc, -, -, -, -⟩ := prototype?_eq_some_iff.1 hp
  refine ⟨typedef_of_prototype hp, ?_⟩
  rw [length_of_prototype hp hc]
  exact directCallsAgree hf hi hc

/-- A function whose parameters are passed in all ways and whose result goes through a pointer, with a direct call in
the reversed order and a call through a pointer. -/
def allPassings : Module where
  exprs := #[{ kind := .constant (.sint 7), ty := .builtin .i32, category := .rvalue },
    { kind := .call ⟨1⟩ [] .regular, ty := .void, category := .none },
    { kind := .aggregateInit [⟨0⟩], ty := .aggregate ⟨0⟩, category := .rvalue },
    { kind := .variableRef ⟨4⟩, ty := .builtin .i32, category := .lvalue },
    { kind := .call ⟨0⟩ [⟨0⟩, ⟨1⟩, ⟨2⟩, ⟨3⟩] .reversed, ty := .aggregate ⟨0⟩, category := .rvalue },
    { kind := .functionRef ⟨0⟩, ty := .function (.aggregate ⟨0⟩) [.builtin .i32, .void, .aggregate ⟨0⟩,
        .reference (.builtin .i32) true], category := .rvalue },
    { kind := .indirectCall ⟨5⟩ [⟨0⟩, ⟨1⟩, ⟨2⟩, ⟨3⟩], ty := .aggregate ⟨0⟩, category := .rvalue }]
  stmts := #[.varDecl ⟨4⟩, .expression ⟨4⟩, .expression ⟨6⟩]
  vars := #[{ name := "x", ty := .builtin .i32 }, { name := "u", ty := .void },
    { name := "s", ty := .aggregate ⟨0⟩ }, { name := "r", ty := .reference (.builtin .i32) true },
    { name := "y", ty := .builtin .i32, init := some ⟨0⟩ }]
  aggregates := #[{ name := "S", members := [.builtin .i32] }]
  functions := #[{ name := "callee", params := [⟨0⟩, ⟨1⟩, ⟨2⟩, ⟨3⟩], result := .aggregate ⟨0⟩ },
    { name := "nothing", params := [], result := .void, body := some [] },
    { name := "caller", params := [], result := .void, body := some [⟨0⟩, ⟨1⟩, ⟨2⟩] }]
  roots := #[⟨2⟩]

/-- In `allPassings` the callee is declared with four C parameters, and so is the pointer type. -/
theorem signatures_agree_allPassings : ∃ d, generateDraft allPassings {} = .ok d ∧ SignaturesAgree allPassings d ∧
    d.declared allPassings = [⟨2⟩, ⟨0⟩, ⟨1⟩] ∧ d.unit.prototypes.toList.map (·.params.length) = [0, 4, 0] ∧
    d.unit.types.functions.shapes.toList.map (·.params.length) = [4] := by
  have hrun : ((generateDraft allPassings {}).toOption.any fun d => d.declared allPassings == [⟨2⟩, ⟨0⟩, ⟨1⟩] &&
      d.unit.prototypes.toList.map (·.params.length) == [0, 4, 0] &&
      d.unit.types.functions.shapes.toList.map (·.params.length) == [4]) = true := by
    decide +kernel
  cases h : generateDraft allPassings {} with
  | error e =>
    rw [h] at hrun
    cases hrun
  | ok d =>
    rw [h] at hrun
    refine ⟨d, rfl, signatures_agree h, ?_⟩
    simpa [Except.toOption, and_assoc] using hrun

end CBackend
