import CBackend.Proofs.LongerModules
import CBackend.Proofs.Lowering.Constants

/-!
# Types that stay

The C type of a source type can be looked up in a draft once it has been asked for, and no later request
changes the answer. Lowering a type is therefore the same as looking it up in any later draft, whatever has been
lowered in between.
-/

namespace CBackend

open IR
open C (CType TypeTable StructShape ArrayShape FunctionShape)

/-- A question that a draft may have an answer to. -/
abbrev Lookup (α : Type) : Type :=
  ReaderT Draft Option α

variable {d : Draft} {n : Nat} {ty : CType} {members : List CType} {head : C.Head} {look : Lookup CType}

/-! ### Look-ups -/

/-- The C type of a scalar. -/
def builtinOf? (kind : Builtin) : Lookup CType :=
  fun d => d.builtin? kind

/-- The struct with the given members. -/
def structOf? (members : List CType) : Lookup CType := fun d =>
  (d.unit.types.structs.shapes.findIdx? (· == .interned members)).map fun n => { head := .struct n }

/-- The wrapped array of a shape. -/
def arrayOf? (shape : ArrayShape) : Lookup CType := fun d =>
  (d.unit.types.arrays.shapes.findIdx? (· == shape)).map fun n => { head := .array n }

/-- The pointer to functions of a shape. -/
def functionOf? (shape : FunctionShape) : Lookup CType := fun d =>
  (d.unit.types.functions.shapes.findIdx? (· == shape)).map fun n => { head := .function n }

/-- The struct of an aggregate. -/
def aggregateOf? (id : AggregateId) : Lookup CType := fun d =>
  (d.aggregates.lookup id).map fun state => { head := .struct state.structNumber }

/-- The pointer to a type whose storage is read-only or not. -/
def pointerOf? (ty : CType) (isConst : Bool) : Lookup CType := fun _ =>
  ty.pointerTo? (if isConst then .readOnly else .plain)

/-- The answer of a check that does not depend on the draft. -/
def checked {α : Type} (x : Except Fault α) : Lookup α := fun _ =>
  x.toOption

/-- What a parameter of a type adds to the C parameters. -/
def passedOf? (passing : ParamPassing) (param : Lookup CType) : Lookup (List CType) :=
  match passing with
  | .omitted => pure []
  | .direct | .reference => do pure [← param]
  | .indirect => do pure [← pointerOf? (← param) false]

/-- The C result and parameter types of a signature, given its convention and its types. -/
def signatureOf? (c : Convention) (result : Lookup CType) (params : List (Lookup CType)) :
    Lookup (CType × List CType) := do
  let (result, hidden) ← match c.result with
    | .nothing => pure (CType.void, [])
    | .direct | .reference => do pure (← result, [])
    | .indirect => do pure (CType.void, [← pointerOf? (← result) false])
  let passed ← (params.zip c.params).mapM fun x => passedOf? x.2 x.1
  pure (result, hidden ++ passed.flatten)

mutual

/-- The C type of a source type. -/
def typeOf? (m : Module) : Ty → Lookup CType
  | .void => pure .void
  | .builtin kind | .enum kind => builtinOf? kind
  | .str => do
    let pointer ← pointerOf? (← builtinOf? .u8) true
    structOf? [pointer, pointer]
  | .aggregate id => aggregateOf? id
  | .pointer pointee mutable | .reference pointee mutable => do
    pointerOf? (← typeOf? m pointee) (!mutable)
  | .moveReference referenced => do pointerOf? (← typeOf? m referenced) false
  | .optional payload =>
    if (Ty.optional payload).isOptionalPointerLike then typeOf? m payload
    else do
      let payload ← typeOf? m payload
      structOf? [payload, ← builtinOf? .bool]
  | .array elem size => do arrayOf? ⟨← typeOf? m elem, size⟩
  | .slice elem mutable => do
    let pointer ← pointerOf? (← typeOf? m elem) (!mutable)
    structOf? [pointer, pointer]
  | .tuple elems => do structOf? (← (typesOf? m elems).mapM id)
  | .function result params => do
    let convention ← checked (Convention.compute m result params)
    let (result, params) ← signatureOf? convention (typeOf? m result) (typesOf? m params)
    functionOf? ⟨result, params⟩

/-- The C types of the source types of a list. -/
def typesOf? (m : Module) : List Ty → List (Lookup CType)
  | [] => []
  | ty :: tys => typeOf? m ty :: typesOf? m tys

end

theorem typesOf?_eq_map (m : Module) (tys : List Ty) : typesOf? m tys = tys.map (typeOf? m) := by
  induction tys with
  | nil => rfl
  | cons ty tys ih => rw [typesOf?, ih, List.map_cons]

/-! ### Later drafts -/

/-- A draft keeps the types of an earlier one: it may have more of them, and declared structs may have got their
members. -/
structure Later (d d' : Draft) : Prop where
  builtins : d'.builtins = d.builtins
  structs : ∀ n shape, d.unit.types.structs.get? n = some shape →
    ∃ shape', d'.unit.types.structs.get? n = some shape' ∧
      (shape' = shape ∨ shape = .declared ∧ ∃ members, shape' = .resolved members)
  arrays : ∀ n shape, d.unit.types.arrays.get? n = some shape → d'.unit.types.arrays.get? n = some shape
  functions : ∀ n shape, d.unit.types.functions.get? n = some shape →
    d'.unit.types.functions.get? n = some shape
  aggregates : ∀ id state, d.aggregates.lookup id = some state →
    ∃ state', d'.aggregates.lookup id = some state' ∧ state'.structNumber = state.structNumber

theorem Later.refl (d : Draft) : Later d d :=
  ⟨rfl, fun _ shape h => ⟨shape, h, .inl rfl⟩, fun _ _ h => h, fun _ _ h => h, fun _ state h => ⟨state, h, rfl⟩⟩

theorem Later.trans {d₁ d₂ d₃ : Draft} (h : Later d₁ d₂) (h' : Later d₂ d₃) : Later d₁ d₃ where
  builtins := h'.builtins.trans h.builtins
  structs n shape hn := by
    obtain ⟨shape₂, hn₂, hshape₂⟩ := h.structs n shape hn
    obtain ⟨shape₃, hn₃, hshape₃⟩ := h'.structs n shape₂ hn₂
    refine ⟨shape₃, hn₃, ?_⟩
    obtain rfl | ⟨rfl, members, rfl⟩ := hshape₂
    · exact hshape₃
    · obtain rfl | ⟨⟨⟩, -⟩ := hshape₃
      exact .inr ⟨rfl, members, rfl⟩
  arrays n shape hn := h'.arrays n shape (h.arrays n shape hn)
  functions n shape hn := h'.functions n shape (h.functions n shape hn)
  aggregates id state hid := by
    obtain ⟨state₂, hid₂, hstate₂⟩ := h.aggregates id state hid
    obtain ⟨state₃, hid₃, hstate₃⟩ := h'.aggregates id state₂ hid₂
    exact ⟨state₃, hid₃, hstate₃.trans hstate₂⟩

instance : Std.Refl Later :=
  ⟨Later.refl⟩

instance : IsTrans Draft Later :=
  ⟨fun _ _ _ => Later.trans⟩

/-- Nothing changes that types are looked up in. -/
structure SameTypes (d d' : Draft) : Prop where
  builtins : d'.builtins = d.builtins
  structs : d'.unit.types.structs.shapes = d.unit.types.structs.shapes
  arrays : d'.unit.types.arrays.shapes = d.unit.types.arrays.shapes
  functions : d'.unit.types.functions.shapes = d.unit.types.functions.shapes
  aggregates : d'.aggregates = d.aggregates

theorem SameTypes.later {d' : Draft} (h : SameTypes d d') : Later d d' where
  builtins := h.builtins
  structs n shape hn := ⟨shape, by rwa [C.Shapes.get?, h.structs], .inl rfl⟩
  arrays n shape hn := by rwa [C.Shapes.get?, h.arrays]
  functions n shape hn := by rwa [C.Shapes.get?, h.functions]
  aggregates id state hid := ⟨state, by rwa [h.aggregates], rfl⟩

/-! ### Answers that stay -/

/-- The answer to a question stays the same in later drafts. -/
def Lookup.Stable {α : Type} (look : Lookup α) : Prop :=
  ∀ d d' a, Later d d' → look d = some a → look d' = some a

/-- The first position that passes a test stays where it is if the entries before and at it answer as before. -/
theorem findIdx?_eq_some_of_getElem? {α : Type} {p : α → Bool} {xs ys : Array α}
    (h : ∀ (i : Nat) (x : α), xs[i]? = some x → ∃ y, ys[i]? = some y ∧ p y = p x) (hn : xs.findIdx? p = some n) :
    ys.findIdx? p = some n := by
  obtain ⟨hlt, hp, hbefore⟩ := Array.findIdx?_eq_some_iff_getElem.1 hn
  have hat {i : Nat} (hi : i < xs.size) : ∃ hi' : i < ys.size, p ys[i] = p xs[i] := by
    obtain ⟨y, hy, hpy⟩ := h i xs[i] (Array.getElem?_eq_getElem hi)
    obtain ⟨hi', rfl⟩ := Array.getElem?_eq_some_iff.1 hy
    exact ⟨hi', hpy⟩
  obtain ⟨hlt', hp'⟩ := hat hlt
  refine Array.findIdx?_eq_some_iff_getElem.2 ⟨hlt', hp'.trans hp, fun j hj => ?_⟩
  obtain ⟨_, hpj⟩ := hat (hj.trans hlt)
  rw [hpj]
  exact hbefore j hj

namespace Lookup.Stable

variable {α β : Type}

theorem pure {a : α} : Stable (Pure.pure a : Lookup α) :=
  fun _ _ _ _ h => h

theorem bind {look : Lookup α} {next : α → Lookup β} (h : look.Stable) (hnext : ∀ a, (next a).Stable) :
    Stable (look >>= next) := by
  intro d d' b hlater hb
  obtain ⟨a, ha, hb⟩ := Option.bind_eq_some_iff.1 hb
  exact Option.bind_eq_some_iff.2 ⟨a, h d d' a hlater ha, hnext a d d' b hlater hb⟩

theorem mapM {l : List β} {look : β → Lookup α} (h : ∀ b ∈ l, (look b).Stable) : Stable (l.mapM look) := by
  induction l with
  | nil => exact .pure
  | cons b l ih =>
    rw [List.mapM_cons]
    refine .bind (h b List.mem_cons_self) fun _ => ?_
    exact .bind (ih fun b' hb' => h b' (List.mem_cons_of_mem _ hb')) fun _ => .pure

theorem builtinOf? {kind : Builtin} : Stable (builtinOf? kind) := by
  intro d d' ty hlater h
  rwa [CBackend.builtinOf?, Draft.builtin?, hlater.builtins]

theorem pointerOf? {isConst : Bool} : Stable (pointerOf? ty isConst) :=
  fun _ _ _ _ h => h

theorem checked {x : Except Fault α} : Stable (checked x) :=
  fun _ _ _ _ h => h

theorem structOf? : Stable (structOf? members) := by
  intro d d' ty hlater h
  obtain ⟨n, hn, rfl⟩ := Option.map_eq_some_iff.1 h
  refine Option.map_eq_some_iff.2 ⟨n, findIdx?_eq_some_of_getElem? (fun i shape hi => ?_) hn, rfl⟩
  obtain ⟨shape', hi', hshape⟩ := hlater.structs i shape hi
  refine ⟨shape', hi', ?_⟩
  obtain rfl | ⟨rfl, members', rfl⟩ := hshape
  · rfl
  · rfl

theorem arrayOf? {shape : ArrayShape} : Stable (arrayOf? shape) := by
  intro d d' ty hlater h
  obtain ⟨n, hn, rfl⟩ := Option.map_eq_some_iff.1 h
  refine Option.map_eq_some_iff.2 ⟨n, findIdx?_eq_some_of_getElem? (fun i shape hi => ?_) hn, rfl⟩
  exact ⟨shape, hlater.arrays i shape hi, rfl⟩

theorem functionOf? {shape : FunctionShape} : Stable (functionOf? shape) := by
  intro d d' ty hlater h
  obtain ⟨n, hn, rfl⟩ := Option.map_eq_some_iff.1 h
  refine Option.map_eq_some_iff.2 ⟨n, findIdx?_eq_some_of_getElem? (fun i shape hi => ?_) hn, rfl⟩
  exact ⟨shape, hlater.functions i shape hi, rfl⟩

theorem aggregateOf? {id : AggregateId} : Stable (aggregateOf? id) := by
  intro d d' ty hlater h
  obtain ⟨state, hstate, rfl⟩ := Option.map_eq_some_iff.1 h
  obtain ⟨state', hstate', hn⟩ := hlater.aggregates id state hstate
  exact Option.map_eq_some_iff.2 ⟨state', hstate', by rw [hn]⟩

theorem passedOf? {passing : ParamPassing} {param : Lookup CType} (h : param.Stable) :
    Stable (passedOf? passing param) := by
  cases passing with
  | omitted => exact .pure
  | direct | reference => exact .bind h fun _ => .pure
  | indirect => exact .bind h fun _ => .bind .pointerOf? fun _ => .pure

theorem signatureOf? {c : Convention} {result : Lookup CType} {params : List (Lookup CType)}
    (hresult : result.Stable) (hparams : ∀ param ∈ params, param.Stable) :
    Stable (signatureOf? c result params) := by
  have hpassed (x : CType × List CType) : Stable (do
      let passed ← (params.zip c.params).mapM fun x => CBackend.passedOf? x.2 x.1
      Pure.pure (x.1, x.2 ++ passed.flatten)) :=
    .bind (.mapM fun x hx => .passedOf? (hparams x.1 (List.of_mem_zip hx).1)) fun _ => .pure
  unfold CBackend.signatureOf?
  dsimp only
  split
  · exact .bind .pure fun _ => hpassed _
  · exact .bind hresult fun _ => .bind .pure fun _ => hpassed _
  · exact .bind hresult fun _ => .bind .pure fun _ => hpassed _
  · exact .bind hresult fun _ => .bind .pointerOf? fun _ => .bind .pure fun _ => hpassed _

end Lookup.Stable

mutual

/-- The C types of source types stay. -/
theorem stable_typeOf? (m : Module) : ∀ ty, (typeOf? m ty).Stable
  | .void => .pure
  | .builtin _ | .enum _ => .builtinOf?
  | .str => .bind .builtinOf? fun _ => .bind .pointerOf? fun _ => .structOf?
  | .aggregate _ => .aggregateOf?
  | .pointer pointee _ | .reference pointee _ | .moveReference pointee =>
    .bind (stable_typeOf? m pointee) fun _ => .pointerOf?
  | .optional payload => by
    unfold typeOf?
    split
    · exact stable_typeOf? m payload
    · exact .bind (stable_typeOf? m payload) fun _ => .bind .builtinOf? fun _ => .structOf?
  | .array elem _ => .bind (stable_typeOf? m elem) fun _ => .arrayOf?
  | .slice elem _ => .bind (stable_typeOf? m elem) fun _ => .bind .pointerOf? fun _ => .structOf?
  | .tuple elems => .bind (.mapM (stable_typesOf? m elems)) fun _ => .structOf?
  | .function result params =>
    .bind .checked fun _ => .bind (.signatureOf? (stable_typeOf? m result) (stable_typesOf? m params)) fun _ =>
      .functionOf?

theorem stable_typesOf? (m : Module) : ∀ tys, ∀ look ∈ typesOf? m tys, look.Stable
  | [], _, h => nomatch h
  | ty :: tys, look, h => by
    obtain rfl | h := List.mem_cons.1 h
    · exact stable_typeOf? m ty
    · exact stable_typesOf? m tys look h

end

/-! ### Lowering gives what can be looked up -/

/-- A computation keeps the types of a draft, and its result can be looked up from then on. -/
def Finds {α : Type} (x : Emit α) (look : Lookup α) : Prop :=
  ∀ d, Ensures d x fun a d' => Later d d' ∧ look d' = some a

namespace Finds

variable {α β : Type}

theorem pure {a : α} : Finds (Pure.pure a) (Pure.pure a) :=
  fun d => .pure ⟨.refl d, rfl⟩

theorem throw {e : Fault} {look : Lookup α} : Finds (MonadExcept.throw e) look :=
  fun _ => .throw

theorem bind {x : Emit α} {f : α → Emit β} {look : Lookup α} {next : α → Lookup β} (hx : Finds x look)
    (hlook : look.Stable) (hf : ∀ a, Finds (f a) (next a)) : Finds (x >>= f) (look >>= next) := by
  refine fun d => .bind (hx d) fun a d₁ ⟨hlater, ha⟩ => (hf a d₁).mono fun b d₂ ⟨hlater', hb⟩ => ?_
  exact ⟨hlater.trans hlater', Option.bind_eq_some_iff.2 ⟨a, hlook d₁ d₂ a hlater' ha, hb⟩⟩

theorem mapM {γ : Type} {R : γ → β → Prop} {l : List γ} {l' : List β} {f : γ → Emit α} {look : β → Lookup α}
    (h : List.Forall₂ R l l') (hf : ∀ a b, R a b → Finds (f a) (look b))
    (hlook : ∀ b ∈ l', (look b).Stable) : Finds (l.mapM f) (l'.mapM look) := by
  induction h with
  | nil => exact .pure
  | cons hab htail ih =>
    rw [List.mapM_cons, List.mapM_cons]
    refine .bind (hf _ _ hab) (hlook _ List.mem_cons_self) fun _ => ?_
    have hstable := fun b hb => hlook b (List.mem_cons_of_mem _ hb)
    exact .bind (ih hstable) (.mapM hstable) fun _ => .pure

theorem checked {x : Except Fault α} : Finds (liftM x) (checked x) :=
  fun d => .lift fun a ha => ⟨.refl d, by rw [CBackend.checked, ha]; rfl⟩

theorem pointerOf? {isConst : Bool} : Finds (Emit.pointerFor ty isConst) (pointerOf? ty isConst) := by
  unfold Emit.pointerFor Emit.pointerTo
  split
  · next pointer h => exact fun d => .pure ⟨.refl d, h⟩
  · exact .throw

theorem builtinOf? {kind : Builtin} : Finds (Emit.builtin kind) (builtinOf? kind) := by
  refine fun d => .get_bind ?_
  split
  · next ty h => exact .pure ⟨.refl d, h⟩
  · exact .throw

end Finds

namespace Keeps

theorem nameType_sameTypes : Keeps SameTypes (Emit.nameType head) := by
  refine fun d => .get_bind (.lift_bind fun types htypes => ?_)
  rintro _ _ ⟨⟩
  refine ⟨rfl, ?_, ?_, ?_, rfl⟩ <;>
  · cases head with
    | scalar => cases htypes; rfl
    | struct n | array n | function n | typedef n =>
      obtain ⟨shapes, hshapes, htypes⟩ := exists_of_bind_eq_ok htypes
      cases htypes
      unfold C.Shapes.setName at hshapes
      split at hshapes <;> cases hshapes
      rfl

theorem addForward_sameTypes : Keeps SameTypes (Emit.addForward head) :=
  .modify fun _ => ⟨rfl, rfl, rfl, rfl, rfl⟩

theorem addTypedef_sameTypes : Keeps SameTypes (Emit.addTypedef head) :=
  .modify fun _ => ⟨rfl, rfl, rfl, rfl, rfl⟩

theorem addBody_sameTypes : Keeps SameTypes (Emit.addBody head) :=
  .modify fun _ => ⟨rfl, rfl, rfl, rfl, rfl⟩

end Keeps

/-- A shape that is interned can be found from then on, and the others stay where they were. -/
theorem C.Shapes.intern_spec {α : Type} [BEq α] [LawfulBEq α] (s : C.Shapes α) (x : α) :
    (∀ n y, s.get? n = some y → (s.intern x).2.get? n = some y) ∧
      (s.intern x).2.shapes.findIdx? (· == x) = some (s.intern x).1.1 := by
  unfold C.Shapes.intern
  split
  · next n hn => exact ⟨fun _ _ h => h, hn⟩
  · next hnone =>
    refine ⟨fun n y h => ?_, ?_⟩
    · obtain ⟨hn, hy⟩ := Array.getElem?_eq_some_iff.1 h
      rw [C.Shapes.get?, C.Shapes.add, Array.getElem?_push_lt hn, hy]
    · rw [C.Shapes.add, Array.findIdx?_push, hnone]
      simp

namespace Finds

/-- The table of types is replaced by one in which the result can be found. -/
theorem setTypes_bind {types : TypeTable} {tail : Emit CType} (hlook : look.Stable)
    (hlater : Later d { d with unit.types := types }) (hfound : look { d with unit.types := types } = some ty)
    (htail : ∀ d, Ensures d tail fun a d' => a = ty ∧ Later d d') :
    Ensures d (Emit.setTypes types >>= fun _ => tail) fun a d' => Later d d' ∧ look d' = some a := by
  refine .bind (.modify (Φ := fun _ d₁ => Later d d₁ ∧ look d₁ = some ty) ⟨hlater, hfound⟩) ?_
  rintro _ d₁ ⟨hlater, hfound⟩
  refine (htail d₁).mono ?_
  rintro _ d₂ ⟨rfl, hlater'⟩
  exact ⟨hlater.trans hlater', hlook d₁ d₂ _ hlater' hfound⟩

/-- The steps that follow when a type is new: it is named, and its declaration and body are noted. -/
theorem ofNew {isNew : Bool} :
    Ensures d (do
      if isNew then
        Emit.nameType head
        Emit.addForward head
        Emit.addBody head
      Pure.pure { head } : Emit CType) fun ty d' => ty = { head } ∧ Later d d' := by
  split
  · refine .bind (Keeps.nameType_sameTypes d) fun _ d₂ h₂ => .bind (Keeps.addForward_sameTypes d₂) fun _ d₃ h₃ => ?_
    exact .bind (Keeps.addBody_sameTypes d₃) fun _ d₄ h₄ => .pure ⟨rfl, (h₂.later.trans h₃.later).trans h₄.later⟩
  · exact .pure ⟨rfl, .refl d⟩

theorem structOf? : Finds (Emit.structType members) (structOf? members) := by
  intro d
  obtain ⟨hkept, hfound⟩ := d.unit.types.structs.intern_spec (.interned members)
  refine .get_bind (setTypes_bind .structOf? ?_ (Option.map_eq_some_iff.2 ⟨_, hfound, rfl⟩) fun d₁ => ofNew)
  exact ⟨rfl, fun n shape hn => ⟨shape, hkept n shape hn, .inl rfl⟩, fun _ _ hn => hn, fun _ _ hn => hn,
    fun _ state hid => ⟨state, hid, rfl⟩⟩

theorem arrayOf? {elem : CType} {size : Nat} : Finds (Emit.arrayType elem size) (arrayOf? ⟨elem, size⟩) := by
  intro d
  obtain ⟨hkept, hfound⟩ := d.unit.types.arrays.intern_spec ⟨elem, size⟩
  refine .get_bind (setTypes_bind .arrayOf? ?_ (Option.map_eq_some_iff.2 ⟨_, hfound, rfl⟩) fun d₁ => ofNew)
  exact ⟨rfl, fun _ shape hn => ⟨shape, hn, .inl rfl⟩, hkept, fun _ _ hn => hn, fun _ state hid => ⟨state, hid, rfl⟩⟩

theorem functionOf? {result : CType} {params : List CType} :
    Finds (Emit.functionType result params) (functionOf? ⟨result, params⟩) := by
  have htail {isNew : Bool} {head : C.Head} (d : Draft) :
      Ensures d (do
        if isNew then
          Emit.nameType head
          Emit.addTypedef head
        Pure.pure { head } : Emit CType) fun ty d' => ty = { head } ∧ Later d d' := by
    split
    · refine .bind (Keeps.nameType_sameTypes d) fun _ d₂ h₂ => ?_
      exact .bind (Keeps.addTypedef_sameTypes d₂) fun _ d₃ h₃ => .pure ⟨rfl, h₂.later.trans h₃.later⟩
    · exact .pure ⟨rfl, .refl d⟩
  intro d
  obtain ⟨hkept, hfound⟩ := d.unit.types.functions.intern_spec ⟨result, params⟩
  refine .get_bind (setTypes_bind .functionOf? ?_ (Option.map_eq_some_iff.2 ⟨_, hfound, rfl⟩) htail)
  exact ⟨rfl, fun _ shape hn => ⟨shape, hn, .inl rfl⟩, fun _ _ hn => hn, hkept, fun _ state hid => ⟨state, hid, rfl⟩⟩

/-! ### Signatures and types -/

/-- What a parameter adds to the C parameters, given that its type is found. -/
theorem passedOf? {x : (Bool → Emit CType) × ParamPassing} (hlower : ∀ define, Finds (x.1 define) look)
    (hlook : look.Stable) :
    Finds (Lowering.passed x) (passedOf? x.2 look) := by
  unfold Lowering.passed
  cases x.2 with
  | omitted => exact .pure
  | direct => exact .bind (hlower true) hlook fun _ => .pure
  | reference => exact .bind (hlower false) hlook fun _ => .pure
  | indirect => exact .bind (hlower true) hlook fun _ => .bind .pointerOf? .pointerOf? fun _ => .pure

theorem signatureOf? {c : Convention} {result : Bool → Emit CType} {params : List (Bool → Emit CType)}
    {looks : List (Lookup CType)} (hresult : ∀ define, Finds (result define) look) (hlook : look.Stable)
    (hparams : List.Forall₂ (fun f l => ∀ define, Finds (f define) l) params looks) (hlooks : ∀ l ∈ looks, l.Stable) :
    Finds (Lowering.signatureOf c result params) (signatureOf? c look looks) := by
  have hpassed (x : CType × List CType) : Finds (do
      let passed ← (params.zip c.params).mapM Lowering.passed
      Pure.pure (x.1, x.2 ++ passed.flatten)) (do
        let passed ← (looks.zip c.params).mapM fun x => CBackend.passedOf? x.2 x.1
        Pure.pure (x.1, x.2 ++ passed.flatten)) := by
    have hstable : ∀ y ∈ looks.zip c.params, (CBackend.passedOf? y.2 y.1).Stable :=
      fun y hy => .passedOf? (hlooks y.1 (List.of_mem_zip hy).1)
    refine .bind (.mapM (forall₂_zip hparams hlooks c.params) ?_ hstable) (.mapM hstable) fun _ => .pure
    rintro x ⟨look, _⟩ ⟨hlower, rfl, hlook⟩
    exact passedOf? hlower hlook
  obtain ⟨passings, resultPassing⟩ := c
  cases resultPassing with
  | nothing => exact .bind .pure .pure fun _ => hpassed _
  | direct => exact .bind (hresult true) hlook fun _ => .bind .pure .pure fun _ => hpassed _
  | reference => exact .bind (hresult false) hlook fun _ => .bind .pure .pure fun _ => hpassed _
  | indirect =>
    exact .bind (hresult true) hlook fun _ => .bind .pointerOf? .pointerOf? fun _ => .bind .pure .pure fun _ =>
      hpassed _

theorem strType (m : Module) : Finds Lowering.strType (typeOf? m .str) :=
  .bind .builtinOf? .builtinOf? fun _ => .bind .pointerOf? .pointerOf? fun _ => .structOf?

section

variable {m : Module} {aggregate : AggregateId → Bool → Emit CType}

mutual

theorem ofTy (h : ∀ id define, Finds (aggregate id define) (aggregateOf? id)) :
    ∀ (ty : Ty) (define : Bool), Finds (Lowering.ofTy m aggregate ty define) (typeOf? m ty)
  | .void, _ => .pure
  | .builtin _, _ | .enum _, _ => .builtinOf?
  | .str, _ => strType m
  | .aggregate id, define => h id define
  | .pointer pointee _, _ | .reference pointee _, _ | .moveReference pointee, _ =>
    .bind (ofTy h pointee false) (stable_typeOf? m pointee) fun _ => .pointerOf?
  | .optional payload, define => by
    unfold Lowering.ofTy typeOf?
    split
    · exact ofTy h payload define
    · exact .bind (ofTy h payload true) (stable_typeOf? m payload) fun _ => .bind .builtinOf? .builtinOf? fun _ =>
        .structOf?
  | .array elem _, _ => .bind (ofTy h elem true) (stable_typeOf? m elem) fun _ => .arrayOf?
  | .slice elem _, _ =>
    .bind (ofTy h elem false) (stable_typeOf? m elem) fun _ => .bind .pointerOf? .pointerOf? fun _ => .structOf?
  | .tuple elems, _ => by
    have hstable := stable_typesOf? m elems
    exact .bind (.mapM (ofEach h elems) (fun _ _ hf => hf true) hstable) (.mapM hstable) fun _ => .structOf?
  | .function result params, _ => by
    have hstable := stable_typesOf? m params
    refine .bind .checked .checked fun c => ?_
    exact .bind (.signatureOf? (ofTy h result) (stable_typeOf? m result) (ofEach h params) hstable)
      (.signatureOf? (stable_typeOf? m result) hstable) fun _ => .functionOf?

theorem ofEach (h : ∀ id define, Finds (aggregate id define) (aggregateOf? id)) : ∀ tys : List Ty,
    List.Forall₂ (fun f look => ∀ define, Finds (f define) look) (Lowering.ofEach m aggregate tys) (typesOf? m tys)
  | [] => .nil
  | ty :: tys => .cons (ofTy h ty) (ofEach h tys)

end

end

end Finds

/-! ### Aggregates -/

/-- Recording how far an aggregate has been lowered, under the number it has. -/
theorem later_setAggregate {id : AggregateId} {state : AggregateState}
    (h : ∀ old, d.aggregates.lookup id = some old → old.structNumber = state.structNumber) :
    Later d { d with aggregates := (id, state) :: d.aggregates } := by
  refine ⟨rfl, fun _ shape hn => ⟨shape, hn, .inl rfl⟩, fun _ _ hn => hn, fun _ _ hn => hn, fun id' old hold => ?_⟩
  by_cases hid : id' = id
  · subst hid
    exact ⟨state, by simp, (h old hold).symm⟩
  · exact ⟨old, by rwa [List.lookup_cons, beq_eq_false_iff_ne.2 hid], rfl⟩

theorem Keeps.resolveStruct_later : Keeps Later (Emit.resolveStruct n members) := by
  refine fun d => .get_bind (.lift_bind fun types htypes => ?_)
  refine .bind (.modify (Φ := fun _ d₁ => Later d d₁) ?_) fun _ d₁ hlater =>
    (Keeps.addBody_sameTypes d₁).mono fun _ _ h => hlater.trans h.later
  unfold C.TypeTable.resolveStruct at htypes
  split at htypes <;> cases htypes
  next hdeclared =>
  refine ⟨rfl, fun i shape hi => ?_, fun _ _ hn => hn, fun _ _ hn => hn, fun _ state hid => ⟨state, hid, rfl⟩⟩
  obtain ⟨hlt, rfl⟩ := Array.getElem?_eq_some_iff.1 hi
  by_cases hn : i = n
  · subst hn
    rw [C.Shapes.get?] at hi hdeclared
    refine ⟨.resolved members, by simp [C.Shapes.get?, hlt], .inr ⟨?_, members, rfl⟩⟩
    exact Option.some.inj (hi.symm.trans hdeclared)
  · refine ⟨_, ?_, .inl rfl⟩
    rw [C.Shapes.get?, Array.getElem?_setIfInBounds_ne (Ne.symm hn), Array.getElem?_eq_getElem hlt]

/-- A struct of its own is new. -/
theorem Ensures.declareStruct :
    Ensures d Emit.declareStruct fun _ d' => Later d d' ∧ d'.aggregates = d.aggregates := by
  refine .get_bind ?_
  refine .bind (.modify (Φ := fun _ d₁ => Later d d₁ ∧ d₁.aggregates = d.aggregates) ⟨?_, rfl⟩) ?_
  · refine ⟨rfl, fun i shape hi => ⟨shape, ?_, .inl rfl⟩, fun _ _ hn => hn, fun _ _ hn => hn,
      fun _ state hid => ⟨state, hid, rfl⟩⟩
    obtain ⟨hlt, rfl⟩ := Array.getElem?_eq_some_iff.1 hi
    exact (Array.getElem?_push_lt hlt).trans rfl
  · rintro _ d₁ ⟨h₁, ha₁⟩
    refine .bind (Keeps.nameType_sameTypes d₁) fun _ d₂ h₂ => ?_
    refine .bind (Keeps.addForward_sameTypes d₂) fun _ d₃ h₃ => .pure ⟨(h₁.trans h₂.later).trans h₃.later, ?_⟩
    rw [h₃.aggregates, h₂.aggregates, ha₁]

namespace Finds

/-- The members of an aggregate are lowered and its struct is defined. -/
theorem resolveAggregate {m : Module} {aggregate : AggregateId → Bool → Emit CType}
    (h : ∀ id define, Finds (aggregate id define) (aggregateOf? id)) {id : AggregateId}
    (hn : ∀ old, d.aggregates.lookup id = some old → old.structNumber = n) :
    Ensures d (Lowering.resolve m aggregate id n) fun _ d' =>
      Later d d' ∧ aggregateOf? id d' = some { head := .struct n } := by
  refine .bind (.modify (Φ := fun _ d₁ => Later d d₁ ∧ aggregateOf? id d₁ = some { head := .struct n })
    ⟨later_setAggregate hn, by simp [aggregateOf?, AggregateState.structNumber]⟩) ?_
  rintro _ d₁ ⟨h₁, hid₁⟩
  refine .lift_bind fun decl _ => ?_
  have hmembers : Keeps Later (decl.members.mapM fun ty => Lowering.ofTy m aggregate ty true) :=
    .mapM fun ty _ d => (ofTy h ty true d).mono fun _ _ hty => hty.1
  refine .bind (hmembers d₁) fun members d₂ h₂ => .bind (Keeps.resolveStruct_later d₂) fun _ d₃ h₃ => ?_
  have hid₃ := Lookup.Stable.aggregateOf? d₁ d₃ _ (h₂.trans h₃) hid₁
  refine .modify ⟨((h₁.trans h₂).trans h₃).trans (later_setAggregate fun old hold => ?_), ?_⟩
  · simpa [aggregateOf?, hold, AggregateState.structNumber] using hid₃
  · simp [aggregateOf?, AggregateState.structNumber]

/-- The struct of an aggregate. -/
theorem aggregateType (m : Module) (depth : Nat) (id : AggregateId) (define : Bool) :
    Finds (Lowering.aggregateType m depth id define) (aggregateOf? id) := by
  induction depth generalizing id define with
  | zero => exact .throw
  | succ depth ih =>
    refine fun d => .get_bind ?_
    dsimp only
    split
    · next n hstate =>
      split
      · exact .bind (resolveAggregate ih fun old hold => by rw [hold] at hstate; cases hstate; rfl)
          fun _ _ h => .pure h
      · exact .pure ⟨.refl d, by simp [aggregateOf?, hstate, AggregateState.structNumber]⟩
    · next n hstate =>
      split
      · exact .lift_bind fun _ _ => .bind (.throw (Φ := fun _ _ => False)) fun _ _ h => h.elim
      · exact .pure ⟨.refl d, by simp [aggregateOf?, hstate, AggregateState.structNumber]⟩
    · next n hstate => exact .pure ⟨.refl d, by simp [aggregateOf?, hstate, AggregateState.structNumber]⟩
    · next n hstate => exact .pure ⟨.refl d, by simp [aggregateOf?, hstate, AggregateState.structNumber]⟩
    · next hnone =>
      refine .bind .declareStruct fun n d₁ ⟨h₁, ha₁⟩ => .lift_bind fun decl _ => ?_
      have hnew (k : Nat) (old : AggregateState) (hold : d₁.aggregates.lookup id = some old) : old.structNumber = k := by
        rw [ha₁, hnone] at hold
        cases hold
      have hset (state : AggregateState) (hstate : state.structNumber = n) :
          Later d { d₁ with aggregates := (id, state) :: d₁.aggregates } ∧
            aggregateOf? id { d₁ with aggregates := (id, state) :: d₁.aggregates } = some { head := .struct n } :=
        ⟨h₁.trans (later_setAggregate (hnew _)), by simp [aggregateOf?, hstate]⟩
      split
      · refine .bind (.modify (Φ := fun _ d₂ => Later d d₂ ∧ aggregateOf? id d₂ = some { head := .struct n })
          (hset _ rfl)) fun _ d₂ h₂ => ?_
        split
        · exact .bind (.throw (Φ := fun _ _ => False)) fun _ _ h => h.elim
        · exact .pure h₂
      · split
        · exact .bind (resolveAggregate ih (hnew n)) fun _ _ h => .pure ⟨h₁.trans h.1, h.2⟩
        · exact .bind (.modify (Φ := fun _ d₂ => Later d d₂ ∧ aggregateOf? id d₂ = some { head := .struct n })
            (hset _ rfl)) fun _ _ h => .pure h

/-- Lowering a type gives what can be looked up from then on. -/
theorem lowerType (m : Module) (ty : Ty) (define : Bool) : Finds (Lowering.lowerType m ty define) (typeOf? m ty) :=
  ofTy (aggregateType m _) ty define

/-- Lowering a signature gives what can be looked up from then on. -/
theorem signature (m : Module) (c : Convention) (result : Ty) (params : List Ty) :
    Finds (Lowering.signature m c result params)
      (CBackend.signatureOf? c (typeOf? m result) (typesOf? m params)) := by
  refine .signatureOf? (lowerType m result) (stable_typeOf? m result) ?_ (stable_typesOf? m params)
  rw [typesOf?_eq_map]
  induction params with
  | nil => exact .nil
  | cons ty tys ih => exact .cons (lowerType m ty) ih

end Finds

theorem stable_signatureOf? (m : Module) (c : Convention) (result : Ty) (params : List Ty) :
    (signatureOf? c (typeOf? m result) (typesOf? m params)).Stable :=
  .signatureOf? (stable_typeOf? m result) (stable_typesOf? m params)

end CBackend
