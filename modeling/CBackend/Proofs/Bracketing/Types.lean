import CBackend.Lowering.Constants
import CBackend.Proofs.Bracketing.Frames
import CBackend.Proofs.Types.Spelling
import Mathlib.Data.Nat.Bitwise

/-!
# Types in order

The tables of types stay in order: a new type is given its name as soon as it is registered, and the
struct of an aggregate is resolved once, because an aggregate whose members are being lowered is not
entered again.
-/

namespace CBackend

open IR Lowering
open C (CType)

variable {α : Type} {n : Nat} {ty : Ty} {id : AggregateId} {head : C.Head} {d : Draft}

/-! ### Pointer levels -/

theorem C.CType.pointee?_isSome_of_pointerTo {ty p : CType} {l : C.PointerLevel}
    (h : ty.pointerTo? l = some p) : p.pointee?.isSome = true := by
  obtain ⟨chain, hchain, rfl⟩ := Option.map_eq_some_iff.1 h
  rw [C.CType.pointee?, Option.isSome_map, C.PointerChain.pop?, (C.PointerChain.push?_spec hchain).2.1]
  rfl

/-! ### Tables -/

/-- A struct may be added, resolved or left as it is. -/
theorem C.Shapes.intern_cases [BEq α] (s : C.Shapes α) (shape : α) :
    (∃ n, s.intern shape = ((n, false), s)) ∨
      s.intern shape = ((s.shapes.size, true), { s with shapes := s.shapes.push shape }) := by
  unfold C.Shapes.intern
  split
  · next n _ => exact .inl ⟨n, rfl⟩
  · exact .inr rfl

namespace Draft.Consistent

variable {d d' : Draft}

/-- What is not about types may change, and structs may be added. -/
theorem congr (h : d.Consistent) (hbuiltins : d'.builtins = d.builtins)
    (hstructs : d'.unit.types.structs.names.size = d'.unit.types.structs.shapes.size)
    (harrays : d'.unit.types.arrays.names.size = d'.unit.types.arrays.shapes.size)
    (hfunctions : d'.unit.types.functions.names.size = d'.unit.types.functions.shapes.size)
    (haggregates : d'.aggregates = d.aggregates)
    (hget : ∀ n shape, d.unit.types.structs.get? n = some shape →
      d'.unit.types.structs.get? n = some shape) : d'.Consistent where
  builtins := hbuiltins ▸ h.builtins
  structNames := hstructs
  arrayNames := harrays
  functionNames := hfunctions
  bounded := by
    rw [haggregates]
    intro id s hs
    have hlt := h.bounded id s hs
    obtain ⟨hlt', -⟩ := Array.getElem?_eq_some_iff.1 (hget _ _ (Array.getElem?_eq_getElem hlt))
    exact hlt'
  unresolved := by
    rw [haggregates]
    exact fun id s hs hne => hget _ _ (h.unresolved id s hs hne)
  distinct := by
    rw [haggregates]
    exact h.distinct

/-- What is not about types may change. -/
theorem same (h : d.Consistent) (hbuiltins : d'.builtins = d.builtins)
    (htypes : d'.unit.types = d.unit.types) (haggregates : d'.aggregates = d.aggregates) :
    d'.Consistent :=
  h.congr hbuiltins (htypes ▸ h.structNames) (htypes ▸ h.arrayNames) (htypes ▸ h.functionNames)
    haggregates fun _ _ hn => htypes ▸ hn

theorem lookup_cons_ne {l : List (AggregateId × α)} {id' : AggregateId} {a : α} (h : id' ≠ id) :
    ((id, a) :: l).lookup id' = l.lookup id' := by
  rw [List.lookup_cons, beq_eq_false_iff_ne.2 h]

/-- The state of an aggregate may change. -/
theorem setAggregate (h : d.Consistent) {s : AggregateState} (hlt : s.structNumber < d.unit.types.structs.shapes.size)
    (hs : (∀ n, s ≠ .resolved n) → d.unit.types.structs.get? s.structNumber = some .declared)
    (hne : ∀ id' s', id' ≠ id → d.aggregates.lookup id' = some s' →
      s'.structNumber ≠ s.structNumber) :
    { d with aggregates := (id, s) :: d.aggregates }.Consistent := by
  have hcases {id' : AggregateId} {s' : AggregateState}
      (h' : ((id, s) :: d.aggregates).lookup id' = some s') :
      id' = id ∧ s' = s ∨ id' ≠ id ∧ d.aggregates.lookup id' = some s' := by
    by_cases hid : id' = id
    · subst hid
      rw [List.lookup_cons_self] at h'
      exact .inl ⟨rfl, (Option.some.inj h').symm⟩
    · exact .inr ⟨hid, lookup_cons_ne hid ▸ h'⟩
  refine ⟨h.builtins, h.structNames, h.arrayNames, h.functionNames, ?_, ?_, ?_⟩
  · intro id' s' h'
    obtain ⟨-, rfl⟩ | ⟨-, h'⟩ := hcases h'
    · exact hlt
    · exact h.bounded id' s' h'
  · intro id' s' h'
    obtain ⟨-, rfl⟩ | ⟨-, h'⟩ := hcases h'
    · exact hs
    · exact h.unresolved id' s' h'
  · intro id₁ id₂ s₁ s₂ h₁ h₂ heq
    obtain ⟨hid₁, hs₁⟩ | ⟨hne₁, hl₁⟩ := hcases h₁ <;>
      obtain ⟨hid₂, hs₂⟩ | ⟨hne₂, hl₂⟩ := hcases h₂
    · exact hid₁.trans hid₂.symm
    · exact absurd (heq.symm.trans (congrArg _ hs₁)) (hne _ _ hne₂ hl₂)
    · exact absurd (heq.trans (congrArg _ hs₂)) (hne _ _ hne₁ hl₁)
    · exact h.distinct id₁ id₂ s₁ s₂ hl₁ hl₂ heq

/-- The members of a struct become known. -/
theorem resolve (h : d.Consistent) (hid : d.aggregates.lookup id = some (.resolving n)) (members : List CType) :
    { d with
      unit.types.structs.shapes := d.unit.types.structs.shapes.setIfInBounds n (.resolved members)
      aggregates := (id, .resolved n) :: d.aggregates }.Consistent := by
  have hlt := h.bounded id _ hid
  -- the struct belongs to no other aggregate, so that the others stay as they are
  have hother {id' : AggregateId} {s : AggregateState} (hne : id' ≠ id)
      (h' : ((id, .resolved n) :: d.aggregates).lookup id' = some s) :
      d.aggregates.lookup id' = some s ∧ s.structNumber ≠ n := by
    rw [lookup_cons_ne hne] at h'
    exact ⟨h', fun heq => hne (h.distinct id' id s _ h' hid heq)⟩
  have hself {s : AggregateState} (h' : ((id, .resolved n) :: d.aggregates).lookup id = some s) :
      s = .resolved n := by
    rw [List.lookup_cons_self] at h'
    exact (Option.some.inj h').symm
  refine ⟨h.builtins, ?_, h.arrayNames, h.functionNames, ?_, ?_, ?_⟩
  · rw [Array.size_setIfInBounds]
    exact h.structNames
  · intro id' s h'
    rw [Array.size_setIfInBounds]
    by_cases hne : id' = id
    · subst hne
      rw [hself h']
      exact hlt
    · exact h.bounded id' s (hother hne h').1
  · intro id' s h' hs
    by_cases hne : id' = id
    · subst hne
      exact absurd (hself h') (hs n)
    · obtain ⟨h', hn⟩ := hother hne h'
      rw [C.Shapes.get?, Array.getElem?_setIfInBounds_ne hn.symm]
      exact h.unresolved id' s h' hs
  · intro id₁ id₂ s₁ s₂ h₁ h₂ heq
    by_cases hid₁ : id₁ = id <;> by_cases hid₂ : id₂ = id
    · exact hid₁.trans hid₂.symm
    · subst hid₁
      rw [hself h₁] at heq
      exact absurd heq.symm (hother hid₂ h₂).2
    · subst hid₂
      rw [hself h₂] at heq
      exact absurd heq (hother hid₁ h₁).2
    · exact h.distinct id₁ id₂ s₁ s₂ (hother hid₁ h₁).1 (hother hid₂ h₂).1 heq

end Draft.Consistent

variable {safe : Bool} {m m' : Module}

namespace Quietly

/-- Something is changed that is not about types. -/
theorem modifyRest {g : Draft → Draft} (hsame : ∀ d, SameStrings d (g d) := by exact fun _ => ⟨rfl, rfl⟩)
    (hfunc : ∀ d, (g d).func = d.func := by exact fun _ => rfl)
    (hbuiltins : ∀ d, (g d).builtins = d.builtins := by exact fun _ => rfl)
    (htypes : ∀ d, (g d).unit.types = d.unit.types := by exact fun _ => rfl)
    (haggregates : ∀ d, (g d).aggregates = d.aggregates := by exact fun _ => rfl) :
    Quietly safe (modify g : Emit PUnit) :=
  .ofModify (fun d => ⟨hfunc d, fun _ _ h => (haggregates d).symm ▸ h⟩)
    (fun d h => h.same (hbuiltins d) (htypes d) (haggregates d)) hsame

theorem builtin {kind : Builtin} : Quietly safe (Emit.builtin kind) := by
  refine fun d hd => .get_bind ?_
  split
  · exact .pure ⟨.refl _, hd, trivial⟩
  · next hnone =>
    refine ⟨.throw, ⟨fun hs => ?_, fun _ => id⟩, .throw⟩
    rw [Draft.builtin?, Array.getElem?_eq_none_iff, (hd hs).builtins] at hnone
    have hlt : Builtin.all.idxOf kind < Builtin.all.length := by cases kind <;> decide
    omega

theorem sizeType : Quietly safe Emit.sizeType :=
  .bind .get fun _ _ => .builtin

theorem boolType : Quietly safe Emit.boolType :=
  .builtin

theorem pointerFor {ty : CType} {isConst : Bool} :
    Quietly safe (Emit.pointerFor ty isConst) (Emit.pointerFor ty isConst) fun p => p.pointee?.isSome = true := by
  unfold Emit.pointerFor Emit.pointerTo
  split
  · next p hp => exact .pure (C.CType.pointee?_isSome_of_pointerTo hp)
  · exact .throw rfl

theorem addForward : Quietly safe (Emit.addForward head) :=
  .modifyRest

theorem addTypedef : Quietly safe (Emit.addTypedef head) :=
  .modifyRest

theorem addBody : Quietly safe (Emit.addBody head) :=
  .modifyRest

end Quietly

/-! ### Conventions -/

namespace Harmless

theorem isRelocatable (hm : m.ExtendedBy m') :
    Harmless safe (CBackend.isRelocatable m ty) (CBackend.isRelocatable m' ty) :=
  .found hm.hasTrait?

theorem convention (hm : m.ExtendedBy m') {result : Ty} {params : List Ty} :
    Harmless safe (Convention.compute m result params) (Convention.compute m' result params) := by
  refine .bind (.mapM fun _ _ => .ite (fun _ => .ok) fun _ => .ite (fun _ => .ok) fun _ => ?_) fun _ _ =>
    .bind (.ite (fun _ => .ok) fun _ => .ite (fun _ => .ok) fun _ => ?_) fun _ _ => .pure
  · exact .bind (.isRelocatable hm) fun _ _ => .pure
  · exact .bind (.isRelocatable hm) fun _ _ => .pure

theorem ofFunction (hm : m.ExtendedBy m') {func : FuncId} :
    Harmless safe (Convention.ofFunction m func) (Convention.ofFunction m' func) :=
  .bind (.found hm.function?) fun _ _ => .bind (.found hm.paramTypes?) fun _ _ => .convention hm

end Harmless

/-! ### New types -/

/-- A type is registered and named. -/
theorem Safely.named {types : C.TypeTable} {k : PUnit → Emit α} {Φ : α → Draft → Prop}
    (hname : ∀ s, Harmless safe (types.setName head s)) (hk : ∀ s types' n, types.setName head s = .ok types' →
      Safely safe { d with unit.types := types', typeCounter := n } (k ⟨⟩) Φ) :
    Safely safe d (Emit.setTypes types >>= fun _ => Emit.nameType head >>= k) Φ := by
  refine .bind (.modify (Φ := fun _ d' => d' = { d with unit.types := types }) rfl) ?_
  rintro _ _ rfl
  refine .bind (Q := fun _ d' => ∃ s types' n, types.setName head s = .ok types' ∧
    d' = { d with unit.types := types', typeCounter := n }) ?_ ?_
  · refine .get_bind ?_
    refine .bind (.lift (Φ := fun types' d' => types.setName head _ = .ok types' ∧
      d' = { d with unit.types := types }) (hname _) fun _ h => ⟨h, rfl⟩) ?_
    rintro types' _ ⟨htypes, rfl⟩
    exact .modify ⟨_, types', _, htypes, rfl⟩
  · rintro _ _ ⟨s, types', n, htypes, rfl⟩
    exact hk s types' n htypes

/-- What a type table is after a shape was named, which works if the shape is the next one. -/
theorem C.Shapes.setName_eq {s s' : C.Shapes α} {name : String} (h : s.setName n name = .ok s') :
    n = s.names.size ∧ s' = { s with names := s.names.push name } := by
  unfold C.Shapes.setName at h
  split at h
  · next hn => exact ⟨hn, (Except.ok.inj h).symm⟩
  · cases h

theorem Harmless.setName {s : C.Shapes α} {name : String} (hn : safe = true → n = s.names.size) :
    Harmless safe (s.setName n name) := by
  refine ⟨fun hs e he => ?_, fun _ => id⟩
  rw [C.Shapes.setName, if_pos (hn hs)] at he
  cases he

namespace Quietly

/-- A new struct. -/
theorem structNamed (hd : safe = true → d.Consistent) {shape : C.StructShape} {k : PUnit → Emit α}
    {Φ : α → Draft → Prop} (hk : ∀ d', Quiet d d' → d'.aggregates = d.aggregates → (safe = true → d'.Consistent ∧
      d'.unit.types.structs.shapes = d.unit.types.structs.shapes.push shape) →
      Safely safe d' (k ⟨⟩) Φ) :
    Safely safe d (Emit.setTypes { d.unit.types with
        structs.shapes := d.unit.types.structs.shapes.push shape } >>= fun _ =>
      Emit.nameType (.struct d.unit.types.structs.shapes.size) >>= k) Φ := by
  refine .named (fun s => ?_) fun s types' n htypes => hk _ ⟨rfl, fun _ _ => id⟩ rfl fun hs => ?_
  · exact .bind (.setName fun hs => (hd hs).structNames.symm) fun _ _ => .pure
  · obtain ⟨structs, hstructs, htypes⟩ := exists_of_bind_eq_ok htypes
    obtain ⟨-, rfl⟩ := C.Shapes.setName_eq hstructs
    cases htypes
    refine ⟨(hd hs).congr rfl ?_ (hd hs).arrayNames (hd hs).functionNames rfl fun i shape' hi => ?_, rfl⟩
    · simpa using (hd hs).structNames
    · obtain ⟨hlt, -⟩ := Array.getElem?_eq_some_iff.1 hi
      exact (Array.getElem?_push_lt hlt).trans (Array.getElem?_eq_getElem hlt ▸ hi)

theorem structType {members : List CType} :
    Quietly safe (Emit.structType members) := by
  refine fun d hd => .get_bind ?_
  obtain ⟨n, hn⟩ | hnew := C.Shapes.intern_cases d.unit.types.structs (.interned members)
  · rw [C.TypeTable.internStruct, hn]
    refine .bind (.modify (Φ := fun _ d' => d' = d) rfl) ?_
    rintro _ _ rfl
    exact .pure ⟨.refl _, hd, trivial⟩
  · rw [C.TypeTable.internStruct, hnew]
    refine structNamed hd fun d₁ hq _ hd₁ => ?_
    have hrest : Quietly safe (do
        Emit.addForward (.struct d.unit.types.structs.shapes.size)
        Emit.addBody (.struct d.unit.types.structs.shapes.size)
        Pure.pure ({ head := .struct d.unit.types.structs.shapes.size } : CType)) :=
      .bind .addForward fun _ _ => .bind .addBody fun _ _ => .pure trivial
    exact (hrest d₁ fun hs => (hd₁ hs).1).mono fun _ d₂ ⟨hq', h⟩ => ⟨hq.trans hq', h⟩

theorem arrayType {elem : CType} {size : Nat} :
    Quietly safe (Emit.arrayType elem size) := by
  refine fun d hd => .get_bind ?_
  obtain ⟨n, hn⟩ | hnew := C.Shapes.intern_cases d.unit.types.arrays ⟨elem, size⟩
  · rw [C.TypeTable.internArray, hn]
    refine .bind (.modify (Φ := fun _ d' => d' = d) rfl) ?_
    rintro _ _ rfl
    exact .pure ⟨.refl _, hd, trivial⟩
  · rw [C.TypeTable.internArray, hnew]
    refine .named (fun s => ?_) fun s types' n htypes => ?_
    · exact .bind (.setName fun hs => (hd hs).arrayNames.symm) fun _ _ => .pure
    · obtain ⟨arrays, harrays, htypes⟩ := exists_of_bind_eq_ok htypes
      obtain ⟨-, rfl⟩ := C.Shapes.setName_eq harrays
      cases htypes
      have hrest : Quietly safe (do
          Emit.addForward (.array d.unit.types.arrays.shapes.size)
          Emit.addBody (.array d.unit.types.arrays.shapes.size)
          Pure.pure ({ head := .array d.unit.types.arrays.shapes.size } : CType)) :=
        .bind .addForward fun _ _ => .bind .addBody fun _ _ => .pure trivial
      refine (hrest _ fun hs => ?_).mono fun _ d₂ ⟨hq, h⟩ => ⟨⟨hq.func, hq.resolving⟩, h⟩
      exact (hd hs).congr rfl (hd hs).structNames (by simpa using (hd hs).arrayNames)
        (hd hs).functionNames rfl fun _ _ => id

theorem functionType {result : CType} {params : List CType} :
    Quietly safe (Emit.functionType result params) := by
  refine fun d hd => .get_bind ?_
  obtain ⟨n, hn⟩ | hnew := C.Shapes.intern_cases d.unit.types.functions ⟨result, params⟩
  · rw [C.TypeTable.internFunction, hn]
    refine .bind (.modify (Φ := fun _ d' => d' = d) rfl) ?_
    rintro _ _ rfl
    exact .pure ⟨.refl _, hd, trivial⟩
  · rw [C.TypeTable.internFunction, hnew]
    refine .named (fun s => ?_) fun s types' n htypes => ?_
    · exact .bind (.setName fun hs => (hd hs).functionNames.symm) fun _ _ => .pure
    · obtain ⟨functions, hfunctions, htypes⟩ := exists_of_bind_eq_ok htypes
      obtain ⟨-, rfl⟩ := C.Shapes.setName_eq hfunctions
      cases htypes
      have hrest : Quietly safe (do
          Emit.addTypedef (.function d.unit.types.functions.shapes.size)
          Pure.pure ({ head := .function d.unit.types.functions.shapes.size } : CType)) :=
        .bind .addTypedef fun _ _ => .pure trivial
      refine (hrest _ fun hs => ?_).mono fun _ d₂ ⟨hq, h⟩ => ⟨⟨hq.func, hq.resolving⟩, h⟩
      exact (hd hs).congr rfl (hd hs).structNames (hd hs).arrayNames
        (by simpa using (hd hs).functionNames) rfl fun _ _ => id

theorem strType : Quietly safe strType :=
  .bind .builtin fun _ _ => .bind .pointerFor fun _ _ => .structType

/-- A signature has one type for each parameter that is passed, and before them the pointer through which
a result is passed. -/
def IsSignature (c : Convention) (count : Nat) (types : List CType) : Prop :=
  if c.result = .indirect then ∃ p passed, p.pointee?.isSome = true ∧ types = p :: passed ∧ passed.length = count
  else types.length = count

/-- A parameter has one type if it is passed, and none otherwise. -/
theorem passedType {x x' : (Bool → Emit CType) × ParamPassing} (h : ∀ b, Quietly safe (x.1 b) (x'.1 b))
    (heq : x.2 = x'.2) :
    Quietly safe (passed x) (passed x') fun tys => tys.length = if x.2 != .omitted then 1 else 0 := by
  unfold passed
  rw [← heq]
  cases x.2 with
  | omitted => exact .pure rfl
  | direct => exact .bind (h true) fun _ _ => .pure rfl
  | reference => exact .bind (h false) fun _ _ => .pure rfl
  | indirect => exact .bind (h true) fun _ _ => .bind .pointerFor fun _ _ => .pure rfl

theorem passedTypes {l l' : List ((Bool → Emit CType) × ParamPassing)}
    (hl : List.Forall₂ (fun x x' => (∀ b, Quietly safe (x.1 b) (x'.1 b)) ∧ x.2 = x'.2) l l') :
    Quietly safe (l.mapM passed) (l'.mapM passed) fun lists =>
      lists.flatten.length = (l.map Prod.snd).countP (· != .omitted) := by
  induction hl with
  | nil => exact .pure rfl
  | cons hx _ ih =>
    rw [List.mapM_cons, List.mapM_cons]
    refine .bind (passedType hx.1 hx.2) fun tys htys => .bind ih fun lists hlists => .pure ?_
    rw [List.flatten_cons, List.length_append, htys, hlists, List.map_cons, List.countP_cons, Nat.add_comm]

theorem signatureOf {c : Convention} {result result' : Bool → Emit CType} {params params' : List (Bool → Emit CType)}
    (hresult : ∀ b, Quietly safe (result b) (result' b))
    (hparams : List.Forall₂ (fun f f' => ∀ b, Quietly safe (f b) (f' b)) params params') :
    Quietly safe (signatureOf c result params) (signatureOf c result' params') fun types =>
      IsSignature c (((params.zip c.params).map Prod.snd).countP (· != .omitted)) types.2 := by
  have hpassed := passedTypes <| (forall₂_zip hparams (P := fun _ => True) (fun _ _ => trivial) c.params).imp
    fun _ _ h => ⟨h.1, h.2.1⟩
  obtain ⟨passings, resultPassing⟩ := c
  unfold IsSignature
  cases resultPassing with
  | nothing => exact .pure_bind (.bind hpassed fun _ h => .pure h)
  | direct => exact .bind (hresult true) fun _ _ => .pure_bind (.bind hpassed fun _ h => .pure h)
  | reference => exact .bind (hresult false) fun _ _ => .pure_bind (.bind hpassed fun _ h => .pure h)
  | indirect =>
    refine .bind (hresult true) fun _ _ => .bind .pointerFor fun p hp => .pure_bind (.bind hpassed fun _ h => .pure ?_)
    exact ⟨p, _, hp, rfl, h⟩

section

variable {aggregate aggregate' : AggregateId → Bool → Emit CType}

mutual

theorem ofTy (hm : m.ExtendedBy m') (h : ∀ id define, Quietly safe (aggregate id define) (aggregate' id define)) :
    ∀ (ty : Ty) (define : Bool),
      Quietly safe (Lowering.ofTy m aggregate ty define) (Lowering.ofTy m' aggregate' ty define)
  | .void, _ => .pure trivial
  | .builtin _, _ | .enum _, _ => .builtin
  | .str, _ => .strType
  | .aggregate id, define => h id define
  | .pointer pointee _, _ | .reference pointee _, _ | .moveReference pointee, _ =>
    .bind (ofTy hm h pointee false) fun _ _ => .mono .pointerFor fun _ _ => trivial
  | .optional payload, define =>
    .ite (fun _ => ofTy hm h payload define) fun _ =>
      .bind (ofTy hm h payload true) fun _ _ => .bind .builtin fun _ _ => .structType
  | .array elem _, _ => .bind (ofTy hm h elem true) fun _ _ => .arrayType
  | .slice elem _, _ => .bind (ofTy hm h elem false) fun _ _ => .bind .pointerFor fun _ _ => .structType
  | .tuple elems, _ => .bind (.mapM₂ ((ofEach hm h elems).imp fun _ _ hf => hf true)) fun _ _ => .structType
  | .function result params, _ =>
    .bind (.lift (.convention hm)) fun _ _ =>
      .bind (.signatureOf (ofTy hm h result) (ofEach hm h params)) fun _ _ => .functionType

theorem ofEach (hm : m.ExtendedBy m') (h : ∀ id define, Quietly safe (aggregate id define) (aggregate' id define)) :
    ∀ tys : List Ty, List.Forall₂ (fun f f' => ∀ b, Quietly safe (f b) (f' b)) (Lowering.ofEach m aggregate tys)
      (Lowering.ofEach m' aggregate' tys)
  | [] => .nil
  | ty :: tys => .cons (ofTy hm h ty) (ofEach hm h tys)

end

end

/-- A declared struct is given its members, by the one aggregate that it belongs to. -/
theorem resolveStruct {members : List CType} (hd : safe = true → d.Consistent)
    (hid : d.aggregates.lookup id = some (.resolving n)) :
    Safely safe d (Emit.resolveStruct n members >>= fun _ => setAggregate id (.resolved n))
      fun _ d' => d'.func = d.func ∧ (safe = true → d'.Consistent) ∧
        ∀ id' k, id' ≠ id → d.aggregates.lookup id' = some (.resolving k) →
          d'.aggregates.lookup id' = some (.resolving k) := by
  refine .bind (Q := fun _ d' => ∃ types bodies, d' = { d with unit := { d.unit with types, bodies } } ∧
    (safe = true → types = { d.unit.types with
      structs.shapes := d.unit.types.structs.shapes.setIfInBounds n (.resolved members) })) ?_ ?_
  · refine .get_bind ?_
    have hget : safe = true → d.unit.types.structs.get? n = some .declared := fun hs =>
      (hd hs).unresolved id _ hid nofun
    refine .bind (.lift (Φ := fun types d' => d' = d ∧ d.unit.types.resolveStruct n members = .ok types)
      ⟨fun hs e he => ?_, fun _ h => h⟩ fun _ h => ⟨rfl, h⟩) ?_
    · rw [C.TypeTable.resolveStruct, hget hs] at he
      cases he
    · rintro types d' ⟨rfl, htypes⟩
      refine .bind (.modify (Φ := fun _ d₁ => d₁ = { d' with unit.types := types }) rfl) ?_
      rintro _ _ rfl
      refine .modify ⟨types, _, rfl, fun hs => ?_⟩
      rw [C.TypeTable.resolveStruct, hget hs] at htypes
      exact (Except.ok.inj htypes).symm
  · rintro _ _ ⟨types, bodies, rfl, htypes⟩
    refine .modify ⟨rfl, fun hs => ?_, fun id' k hne hk => ?_⟩
    · have hresolved := Draft.Consistent.resolve (hd hs) hid members
      refine hresolved.congr rfl ?_ ?_ ?_ rfl ?_ <;> rw [htypes hs]
      · exact hresolved.structNames
      · exact (hd hs).arrayNames
      · exact (hd hs).functionNames
      · exact fun _ _ h => h
    · exact (Draft.Consistent.lookup_cons_ne hne).trans hk

/-- The members of an aggregate are lowered, given how the aggregates in it are. -/
theorem resolveAggregate (hm : m.ExtendedBy m') {aggregate aggregate' : AggregateId → Bool → Emit CType}
    (h : ∀ id define, Quietly safe (aggregate id define) (aggregate' id define))
    (hd : safe = true → { d with aggregates := (id, .resolving n) :: d.aggregates }.Consistent)
    (hid : ∀ k, d.aggregates.lookup id ≠ some (.resolving k)) :
    Safely safe d (resolve m aggregate id n) (fun _ d' => Quiet d d' ∧ (safe = true → d'.Consistent))
      (resolve m' aggregate' id n) := by
  refine .bind (.modify (Φ := fun _ d' => d' = { d with aggregates := (id, .resolving n) :: d.aggregates }) rfl) ?_
  rintro _ _ rfl
  refine .bind (.lift (.found hm.aggregate?) fun _ _ => rfl) ?_
  rintro decl _ rfl
  refine .bind (mapM (fun ty _ => ofTy hm h ty true) _ hd) fun members d₂ ⟨hq, hd₂, _⟩ => ?_
  refine (resolveStruct hd₂ (hq.resolving id n List.lookup_cons_self)).mono ?_
  rintro _ d₃ ⟨hfunc, hd₃, hothers⟩
  refine ⟨⟨hfunc.trans hq.func, fun id' k hk => ?_⟩, hd₃⟩
  have hne : id' ≠ id := fun heq => hid k (heq ▸ hk)
  exact hothers id' k hne (hq.resolving id' k ((Draft.Consistent.lookup_cons_ne hne).trans hk))

/-- A new struct for an aggregate that has none yet. -/
theorem declareStruct (hd : safe = true → d.Consistent) :
    Safely safe d Emit.declareStruct fun n d' => Quiet d d' ∧ d'.aggregates = d.aggregates ∧
      (safe = true → d'.Consistent ∧ d'.unit.types.structs.get? n = some .declared ∧
        ∀ id s, d.aggregates.lookup id = some s → s.structNumber ≠ n) := by
  refine .get_bind (structNamed hd fun d₁ hq haggregates hd₁ => ?_)
  refine .bind (.modify (Φ := fun _ d' => d' = { d₁ with
    unit.forwards := d₁.unit.forwards.push (.struct d.unit.types.structs.shapes.size) }) rfl) ?_
  rintro _ _ rfl
  refine .pure ⟨⟨hq.func, hq.resolving⟩, haggregates, fun hs => ⟨(hd₁ hs).1.same rfl rfl rfl, ?_, ?_⟩⟩
  · rw [C.Shapes.get?, (hd₁ hs).2]
    exact Array.getElem?_push_size
  · intro id s hs' heq
    exact absurd ((hd hs).bounded id s hs') (heq ▸ lt_irrefl _)

/-- The struct of an aggregate. The bound on the nesting may be larger in the longer module. -/
theorem aggregateType (hm : m.ExtendedBy m') {k k' : Nat} (hk : k ≤ k') (id : AggregateId) (define : Bool) :
    Quietly safe (aggregateType m k id define) (aggregateType m' k' id define) := by
  induction k generalizing k' id define with
  | zero => exact .throw rfl
  | succ k ih =>
    obtain ⟨k', rfl⟩ := Nat.exists_eq_add_of_le' hk
    have hinner := @ih (k' + k) (Nat.le_add_left ..)
    refine fun d hd => .get_bind ?_
    dsimp only
    split
    · next n hn =>
      cases define with
      | true =>
        refine .bind (resolveAggregate hm hinner (fun hs => ?_) fun k hk => ?_) fun _ d₁ h₁ => ?_
        · refine (hd hs).setAggregate ((hd hs).bounded id (.declared n) hn)
            (fun _ => (hd hs).unresolved id (.declared n) hn nofun) fun id' s' hne hs' heq => ?_
          exact hne ((hd hs).distinct id' id s' _ hs' hn heq)
        · rw [hn] at hk
          cases hk
        · exact .pure ⟨h₁.1, h₁.2, trivial⟩
      | false => exact .pure ⟨.refl d, hd, trivial⟩
    · cases define with
      | true =>
        exact .bind (.lift (Φ := fun _ _ => True) (.found hm.aggregate?) fun _ _ => trivial) fun _ _ _ => .throw rfl
      | false => exact .pure ⟨.refl d, hd, trivial⟩
    · exact .pure ⟨.refl d, hd, trivial⟩
    · exact .pure ⟨.refl d, hd, trivial⟩
    · next hnone =>
      refine .bind (declareStruct hd) fun n d₁ ⟨hq, haggregates, hd₁⟩ => ?_
      refine .bind (.lift (.found hm.aggregate?) fun _ _ => rfl) ?_
      rintro decl _ rfl
      -- the new struct may be given to the aggregate, in whichever state
      have hset (s : AggregateState) (hs : s.structNumber = n) (hsafe : safe = true) :
          { d₁ with aggregates := (id, s) :: d₁.aggregates }.Consistent := by
        obtain ⟨hcons, hget, hne⟩ := hd₁ hsafe
        refine hcons.setAggregate ?_ (fun _ => hs ▸ hget) fun id' s' _ h' => hs ▸ hne id' s' (haggregates ▸ h')
        exact hs ▸ (Array.getElem?_eq_some_iff.1 hget).1
      have hid (k : Nat) : d₁.aggregates.lookup id ≠ some (.resolving k) := by
        rw [haggregates, hnone]
        exact nofun
      have hquiet (s : AggregateState) : Quiet d { d₁ with aggregates := (id, s) :: d₁.aggregates } := by
        refine ⟨hq.func, fun id' k hk => ?_⟩
        have hk := hq.resolving id' k hk
        have hne : id' ≠ id := fun heq => hid k (heq ▸ hk)
        exact (Draft.Consistent.lookup_cons_ne hne).trans hk
      have hstate {s : AggregateState} (hs : s.structNumber = n) : Safely safe d₁ (setAggregate id s)
          fun _ d' => Quiet d d' ∧ (safe = true → d'.Consistent) :=
        .modify ⟨hquiet s, hset s hs⟩
      cases decl.isForward <;> cases define
      · exact .bind (hstate rfl) fun _ d₂ h₂ => .pure ⟨h₂.1, h₂.2, trivial⟩
      · refine .bind (resolveAggregate hm hinner (hset _ rfl) hid) fun _ d₂ h₂ => ?_
        exact .pure ⟨hq.trans h₂.1, h₂.2, trivial⟩
      · exact .bind (hstate rfl) fun _ d₂ h₂ => .pure ⟨h₂.1, h₂.2, trivial⟩
      · exact .bind (hstate rfl) fun _ d₂ _ => .throw rfl

theorem lowerType (hm : m.ExtendedBy m') {define : Bool} :
    Quietly safe (lowerType m ty define) (lowerType m' ty define) :=
  ofTy hm (aggregateType hm (Nat.add_le_add_right (by simpa using hm.aggregates.length_le) 1)) ty define

theorem valueType (hm : m.ExtendedBy m') :
    Quietly safe (valueType m ty) (valueType m' ty) :=
  lowerType hm

theorem signature (hm : m.ExtendedBy m') {c : Convention} {result : Ty} {params : List Ty} :
    Quietly safe (signature m c result params) (signature m' c result params) fun types =>
      IsSignature c (((params.zip c.params).map Prod.snd).countP (· != .omitted)) types.2 := by
  refine .mono (signatureOf (fun _ => lowerType hm) ?_) fun types h => ?_
  · rw [List.forall₂_map_left_iff, List.forall₂_map_right_iff]
    exact List.forall₂_same.2 fun _ _ _ => lowerType hm
  · rw [List.zip_map_left, List.map_map] at h
    exact h

end Quietly

end CBackend
