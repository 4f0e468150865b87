import CBackend.Proofs.Linkage.Functions
import CBackend.Proofs.Lowering.Functions

/-!
# The definitions of functions

The parameters of a definition are bound one after the other from the types of the signature. None of these is left
over, so that the head of the definition is the declaration that the function got when it was requested.
-/

namespace CBackend

open IR Emission
open C (CType)

variable {m : Module} {params : List Ty} {c : Convention} {d : Draft}

/-- The number of C parameters of a convention. -/
def Convention.arity (c : Convention) : Nat :=
  (if c.hasResultPointer then 1 else 0) + c.params.countP (· != .omitted)

/-! ### Lengths -/

theorem length_of_mapM_eq_ok {α β : Type} {f : α → Except Fault β} {l : List α} {bs : List β}
    (h : l.mapM f = .ok bs) : bs.length = l.length := by
  induction l generalizing bs with
  | nil => cases h; rfl
  | cons a l ih =>
    rw [List.mapM_cons] at h
    obtain ⟨b, -, h⟩ := exists_of_bind_eq_ok h
    obtain ⟨bs', hbs, h⟩ := exists_of_bind_eq_ok h
    cases h
    rw [List.length_cons, List.length_cons, ih hbs]

/-- Every parameter of a function has its type. -/
theorem length_paramTypes {f : Function} (h : m.paramTypes? f = some params) :
    params.length = f.params.length := by
  unfold Module.paramTypes? at h
  generalize f.params = ids at h
  induction ids generalizing params with
  | nil => cases h; rfl
  | cons id ids ih =>
    rw [List.mapM_cons] at h
    obtain ⟨ty, -, h⟩ := Option.bind_eq_some_iff.1 h
    obtain ⟨tys, htys, h⟩ := Option.bind_eq_some_iff.1 h
    cases h
    rw [List.length_cons, List.length_cons, ih htys]

/-- A convention has a way of passing for every parameter. -/
theorem Convention.length_params_of_compute {result : Ty} (h : compute m result params = .ok c) :
    c.params.length = params.length := by
  obtain ⟨passings, hpassings, h⟩ := exists_of_bind_eq_ok h
  obtain ⟨_, -, h⟩ := exists_of_bind_eq_ok h
  cases h
  exact length_of_mapM_eq_ok hpassings

theorem Convention.compute_of_ofFunction {func : FuncId} {f : Function} (hf : m.function? func = some f)
    (hparams : m.paramTypes? f = some params) (h : ofFunction m func = .ok c) : compute m f.result params = .ok c := by
  rw [ofFunction, hf] at h
  change (inRange (m.paramTypes? f) >>= fun params => compute m f.result params) = .ok c at h
  rw [hparams] at h
  exact h

theorem length_of_passedOf? {passing : ParamPassing} {param : Lookup CType} {l : List CType}
    (h : passedOf? passing param d = some l) : l.length = if passing != .omitted then 1 else 0 := by
  cases passing with
  | omitted => cases h; rfl
  | direct | reference =>
    obtain ⟨_, -, h⟩ := Option.bind_eq_some_iff.1 h
    cases h
    rfl
  | indirect =>
    obtain ⟨_, -, h⟩ := Option.bind_eq_some_iff.1 h
    obtain ⟨_, -, h⟩ := Option.bind_eq_some_iff.1 h
    cases h
    rfl

theorem length_flatten_of_passedOf? {params : List (Lookup CType)} {passings : List ParamPassing}
    {passed : List (List CType)} (hlength : params.length = passings.length)
    (h : ((params.zip passings).mapM fun x => passedOf? x.2 x.1 : Lookup (List (List CType))) d = some passed) :
    passed.flatten.length = passings.countP (· != .omitted) := by
  induction passings generalizing params passed with
  | nil =>
    rw [List.zip_nil_right] at h
    cases h
    rfl
  | cons passing passings ih =>
    cases params with
    | nil => simp at hlength
    | cons param params =>
      rw [List.zip_cons_cons, List.mapM_cons] at h
      obtain ⟨l, hl, h⟩ := Option.bind_eq_some_iff.1 h
      obtain ⟨ls, hls, h⟩ := Option.bind_eq_some_iff.1 h
      cases h
      have hrest := ih (by simpa using hlength) hls
      rw [List.flatten_cons, List.length_append, hrest, length_of_passedOf? hl, List.countP_cons]
      exact Nat.add_comm _ _

/-- A signature has as many C parameters as its convention says. -/
theorem length_of_signatureOf? {result : Lookup CType} {params : List (Lookup CType)} {s : CType × List CType}
    (hlength : params.length = c.params.length) (h : signatureOf? c result params d = some s) :
    s.2.length = c.arity := by
  have hrest {hidden : List CType} {resultType : CType}
      (hhidden : hidden.length = if c.hasResultPointer then 1 else 0)
      (h : (do
        let passed ← (params.zip c.params).mapM fun x => passedOf? x.2 x.1
        pure (resultType, hidden ++ passed.flatten) : Lookup (CType × List CType)) d = some s) :
      s.2.length = c.arity := by
    obtain ⟨passed, hpassed, h⟩ := Option.bind_eq_some_iff.1 h
    cases h
    rw [List.length_append, hhidden, length_flatten_of_passedOf? hlength hpassed, Convention.arity]
  unfold signatureOf? at h
  cases hc : c.result with
  | nothing =>
    rw [hc] at h
    exact hrest (by simp [Convention.hasResultPointer, hc]) h
  | direct | reference =>
    rw [hc] at h
    obtain ⟨_, -, h⟩ := Option.bind_eq_some_iff.1 h
    exact hrest (by simp [Convention.hasResultPointer, hc]) h
  | indirect =>
    rw [hc] at h
    obtain ⟨_, -, h⟩ := Option.bind_eq_some_iff.1 h
    obtain ⟨_, -, h⟩ := Option.bind_eq_some_iff.1 h
    exact hrest (by simp [Convention.hasResultPointer, hc]) h

/-! ### Parameters -/

variable {m : Module} {d : Draft}

/-- Binding the parameters uses up their types one after the other. -/
theorem Ensures.boundTypes {params : List (VarId × ParamPassing)} {types : List CType} :
    Ensures d (Lowering.parameters m params types) fun bound _ =>
      bound.map (·.1) = types.take (params.countP (·.2 != .omitted)) ∧
        params.countP (·.2 != .omitted) ≤ types.length := by
  induction params generalizing types d with
  | nil => exact .pure ⟨rfl, Nat.zero_le _⟩
  | cons param rest ih =>
    obtain ⟨x, passing⟩ := param
    have hcons (hp : passing ≠ .omitted) : Ensures d (Lowering.parameters m ((x, passing) :: rest) types) fun bound _ =>
        bound.map (·.1) = types.take (((x, passing) :: rest).countP (·.2 != .omitted)) ∧
          ((x, passing) :: rest).countP (·.2 != .omitted) ≤ types.length := by
      rw [List.countP_cons_of_pos (by simpa using hp)]
      cases types with
      | nil => cases passing <;> first | contradiction | exact .throw
      | cons ty types =>
        have hrest : Ensures d (do
            let n ← Emit.freshNumber
            Lowering.bindVariable m x (← Lowering.parameterValue passing ty n)
            let later ← Lowering.parameters m rest types
            Pure.pure ((ty, n) :: later)) fun bound _ =>
              bound.map (·.1) = (ty :: types).take (rest.countP (·.2 != .omitted) + 1) ∧
                rest.countP (·.2 != .omitted) + 1 ≤ (ty :: types).length := by
          refine .bind (Q := fun _ _ => True) (fun _ _ _ => trivial) fun n d₁ _ => ?_
          refine .bind (Q := fun _ _ => True) (fun _ _ _ => trivial) fun v d₂ _ => ?_
          refine .bind (Q := fun _ _ => True) (fun _ _ _ => trivial) fun _ d₃ _ => ?_
          refine .bind ih fun later d₄ h => .pure ?_
          rw [List.map_cons, h.1, List.take_succ_cons, List.length_cons]
          exact ⟨rfl, Nat.succ_le_succ h.2⟩
        cases passing <;> first | contradiction | exact hrest
    cases passing with
    | omitted =>
      rw [List.countP_cons_of_neg (by simp)]
      exact ih
    | direct | reference | indirect => exact hcons (by simp)

/-- Taking the parameter of the result uses up its type. -/
theorem Ensures.resultType {types : List CType} (hlength : types.length = c.arity) :
    Ensures d (Lowering.resultParameter c types) fun r _ =>
      r.1.map (·.1) ++ r.2 = types ∧ r.2.length = c.params.countP (· != .omitted) := by
  unfold Lowering.resultParameter
  rw [Convention.arity] at hlength
  cases hc : c.hasResultPointer with
  | false =>
    rw [hc] at hlength
    exact .pure ⟨rfl, by simpa using hlength⟩
  | true =>
    rw [hc] at hlength
    cases types with
    | nil =>
      simp at hlength
      omega
    | cons pointer rest =>
      have hrest : rest.length = c.params.countP (· != .omitted) := by
        simpa [Nat.add_comm 1] using hlength
      refine .bind (Q := fun _ _ => True) (fun _ _ _ => trivial) fun n d₁ _ => ?_
      dsimp only
      split
      · refine .bind (Q := fun _ _ => True) (fun _ _ _ => trivial) fun n d₁ _ => ?_
        refine .bind (Q := fun _ _ => True) (fun _ _ _ => trivial) fun n d₁ _ => ?_
        exact .pure ⟨rfl, hrest⟩
      · exact .pure ⟨rfl, hrest⟩

/-! ### Bodies -/

/-- A step of the work on a module: a request, or a function is taken from the queue, or a definition is added. -/
inductive Turn (m : Module) : Draft → Draft → Prop
  | request {d d' : Draft} (h : Request m d d') : Turn m d d'
  | take {d : Draft} {func : FuncId} {rest : List FuncId} (h : d.queue = func :: rest) :
      Turn m d { d with queue := rest }
  | define {d : Draft} (func : FunctionDraft) (df : C.Definition) (body : Body) :
      Turn m d { d with func, unit.definitions := d.unit.definitions.push df, bodies := d.bodies.push body }

/-- The steps of the work on a module. -/
abbrev Turns (m : Module) : Draft → Draft → Prop :=
  Relation.ReflTransGen (Turn m)

theorem Turns.ofRequests {d' : Draft} (h : Relation.ReflTransGen (Request m) d d') : Turns m d d' :=
  Relation.ReflTransGen.mono (fun _ _ => Turn.request) _ _ h

variable {taken written : List FuncId} {func : FuncId}

theorem mem_defined_iff : func ∈ d.defined m ↔ func ∈ d.requested ∧ m.header? func = none ∧ m.hasBody func := by
  rw [Draft.defined, Draft.declared, List.mem_filter, List.mem_filter, Option.isNone_iff_eq_none, and_assoc]

/-- A function that has been requested is known. -/
theorem Ensures.declareFunction_of_mem (h : func ∈ d.requested) :
    Ensures d (Lowering.declareFunction m func) fun name d' => d = d' ∧ d.functions.lookup func = some name := by
  refine Ensures.declareFunction.mono fun name d' hrequested => ?_
  cases hrequested with
  | known hname => exact ⟨rfl, hname⟩
  | library hnew | declared hnew => exact absurd hnew (mem_requested_iff.1 h)

/-- The definition of a function is added. -/
theorem Linked.define (hd : Linked m taken written d) (df : C.Definition)
    (hhead : prototype? m func d = some df.head) (body : FunctionDraft) (b : Body) :
    Linked m taken (written ++ [func])
      { d with func := body, unit.definitions := d.unit.definitions.push df, bodies := d.bodies.push b } := by
  have hfollows : Follows d { d with
      func := body, unit.definitions := d.unit.definitions.push df, bodies := d.bodies.push b } :=
    ⟨SameTypes.later ⟨rfl, rfl, rfl, rfl, rfl⟩, fun _ _ h => h⟩
  refine ⟨hd.nodup, hd.known, hd.reached, hfollows.map_prototype? hd.prototypes, hd.queue, ?_⟩
  rw [List.map_append, hfollows.map_prototype? hd.definitions, List.map_singleton, hfollows.prototype? hhead,
    Array.toList_push, List.map_append, List.map_append, List.map_singleton, List.map_singleton]

/-- The end of a body adds the definition of its function. -/
theorem Linked.endFunction {isStatic : Bool} {result : CType} {name : C.Name} {params : List (CType × Nat)}
    (hd : Linked m taken written d)
    (hhead : prototype? m func d = some ⟨isStatic, result, name, params.map (·.1)⟩) :
    Ensures d (Emit.endFunction isStatic result name params) fun _ d' =>
      Linked m taken (written ++ [func]) d' ∧ Turns m d d' := by
  refine .get_bind (.bind (.modify (Φ := fun _ d₁ => d₁ = { d with func := {} }) rfl) ?_)
  rintro _ _ rfl
  refine .when (Q := fun d₁ => d₁ = { d with func := {} }) (fun _ => .throw) (fun _ => rfl) ?_
  rintro _ rfl
  exact .modify ⟨hd.define ⟨isStatic, result, name, params, _⟩ hhead {} _, .single (.define {} _ _)⟩

/-- Writing a body adds the definition of its function. -/
theorem Linked.functionBody {w : Lowering.Walk} (hw : w.Sound false m) (hd : Linked m (written ++ [func]) written d)
    (hfinished : Finished false m .all d) :
    Ensures d (Lowering.functionBody m w func) fun _ d' =>
      Linked m (written ++ [func]) (written ++ [func]) d' ∧ Turns m d d' ∧ Finished false m .all d' := by
  have hdefined : func ∈ d.defined m := hd.queue ▸ by simp
  obtain ⟨hmem, hheader, hhasBody⟩ := mem_defined_iff.1 hdefined
  have hreached := hd.reached func hmem
  have hlibrary : ∀ f, m.function? func = some f → f.libraryHeader = none := fun f hf => by
    simpa [Module.header?, hf] using hheader
  have hbodies : Ensures d (Lowering.functionBody m w func) fun _ d' => Finished false m .all d' :=
    .functionBody hw rfl .all hreached hlibrary (fun _ _ _ _ _ _ h => .all h) hfinished
  suffices hlinked : Ensures d (Lowering.functionBody m w func) fun _ d' =>
      Linked m (written ++ [func]) (written ++ [func]) d' ∧ Turns m d d' from
    fun _ d' h => ⟨(hlinked _ d' h).1, (hlinked _ d' h).2, hbodies _ d' h⟩
  refine .lift_bind fun f hf => ?_
  have hf := eq_some_of_inRange hf
  have hsome : f.body.isSome := by simpa [Module.hasBody, hf] using hhasBody
  split
  · next hnone =>
    rw [hnone] at hsome
    cases hsome
  · next body hbody =>
    have hitems : ∀ a ∈ f.params.map Item.var ++ body.map Item.stmt, m.Reached a := fun a ha =>
      hreached.ofFunc hf a (by simpa [Function.items, hlibrary f hf, hbody] using ha)
    have hstatic : f.symbolName.isNone = f.isStatic := by simp [Function.isStatic, Function.isExternal, hbody]
    refine .bind (.declareFunction_of_mem hmem) ?_
    rintro name _ ⟨rfl, hname⟩
    refine .lift_bind fun c hc => .lift_bind fun params hparams => ?_
    have hparams := eq_some_of_inRange hparams
    have hlength := Convention.length_params_of_compute (Convention.compute_of_ofFunction hf hparams hc)
    refine .bind (Q := fun s d₁ => Lowering.signature m c f.result params d = .ok (s, d₁)) (fun _ _ h => h) ?_
    rintro ⟨result, types⟩ d₁ hsignature
    have hsilently : Silently m d (Lowering.signature m c f.result params) := .signature
    obtain ⟨hs₁, -⟩ := hsilently hfinished.made _ _ hsignature
    have hfollows₁ := Follows.of_requests hs₁.rest.requests
    obtain ⟨-, hfound⟩ := Finds.signature m c f.result params _ _ _ hsignature
    have harity : types.length = c.arity :=
      length_of_signatureOf? (by rw [typesOf?_eq_map, List.length_map, hlength]) hfound
    -- the body is written by requests from here on
    refine .bind (.modify (Φ := fun _ d₂ => Relation.ReflTransGen (Request m) d₁ d₂ ∧ WellMade m d₂ ∧
      d₂.func.cleanups = []) ⟨.single (.body _), .ofEmpty (hs₁.outside hfinished.outside) rfl rfl rfl rfl rfl rfl rfl, rfl⟩) ?_
    rintro _ d₂ ⟨hrequests₂, hd₂, hnil⟩
    refine .getFunction_bind ?_
    have hresult : Ensures d₂ (Lowering.resultParameter c types) fun first d₃ => Grows false m false .all d₂ d₃ ∧
        first.1.map (·.1) ++ first.2 = types ∧ first.2.length = c.params.countP (· != .omitted) :=
      fun _ _ h => ⟨(Lowers.resultParameter hd₂ _ _ h).1, Ensures.resultType harity _ _ h⟩
    refine .bind hresult ?_
    rintro first d₃ ⟨g₃, hfirst, hrest⟩
    have hcount : (f.params.zip c.params).countP (·.2 != .omitted) = first.2.length := by
      have hsnd : (f.params.zip c.params).map Prod.snd = c.params :=
        List.map_snd_zip (by rw [hlength, length_paramTypes hparams])
      rw [hrest]
      conv_rhs => rw [← hsnd, List.countP_map]
      rfl
    have hbound : Ensures d₃ (Lowering.parameters m (f.params.zip c.params) first.2) fun bound d₄ =>
        Grows false m false .all d₂ d₄ ∧ bound.map (·.1) = first.2 := by
      intro bound d₄ h
      have hx : ∀ p ∈ f.params.zip c.params, m.Reached (.var p.1) := fun p hp =>
        hitems _ (List.mem_append_left _ (List.mem_map_of_mem (List.of_mem_zip hp).1))
      refine ⟨(g₃.andThen (.parameters hx) _ _ h).1, ?_⟩
      rw [(Ensures.boundTypes _ _ h).1, hcount, List.take_length]
    refine .bind hbound ?_
    rintro bound d₄ ⟨g₄, htypes⟩
    have hhead {d' : Draft} (hfollows : Follows d₁ d') : prototype? m func d' =
        some ⟨f.symbolName.isNone, result, name, (first.1 ++ bound).map (·.1)⟩ := by
      rw [hstatic, List.map_append, htypes, hfirst]
      have hname' := (hfollows₁.trans hfollows).names func name hname
      have hfound' := stable_signatureOf? m c f.result params d₁ d' _ hfollows.later hfound
      exact prototype?_eq_some_iff.2 ⟨f, c, params, result, types, name, hf, hc, hparams, hfound', hname', rfl⟩
    have hstmts : ∀ s ∈ body, Allowed false m .all (.stmt s) := fun s hs =>
      .all (hitems _ (List.mem_append_right _ (List.mem_map_of_mem hs)))
    refine .bind (g₄.andThen (.statements hw hstmts)) ?_
    rintro _ d₅ ⟨g₅, -⟩
    refine .bind (hw.closeScope .all g₅) ?_
    rintro _ d₆ ⟨g₆, -⟩
    refine .getFunction_bind ?_
    refine .whenNot (Q := fun d₇ => Grows false m true .all d₂ d₇) (fun _ => ?_) (fun _ => g₆) fun d₇ g₇ => ?_
    · exact (Ensures.fallOffEnd rfl g₆.made ((g₆.balanced rfl).trans hnil)).mono fun _ _ h => g₆.trans h.1
    have hrequests := hrequests₂.trans g₇.rest.requests
    have hlinked := hd.of_requests (hs₁.rest.requests.trans hrequests)
    refine (hlinked.endFunction (hhead (.of_requests hrequests))).mono ?_
    rintro _ d' ⟨hlinked', hturns'⟩
    exact ⟨hlinked', (Turns.ofRequests (hs₁.rest.requests.trans hrequests)).trans hturns'⟩

end CBackend
