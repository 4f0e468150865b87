import CBackend.Proofs.Registration
import CBackend.Proofs.Types.Registry

/-!
# Calls for types

The types of a draft come about by calls: a struct, a wrapped array or a function type is asked for by its shape, a
struct is declared or resolved, or a pointer is built. Whatever the calls are, the tables of shapes stay in step with
the answers that were given.
-/

namespace CBackend

open IR
open C (CType Head StructShape ArrayShape FunctionShape)

/-! ### Calls -/

/-- A call that changes or asks for types. -/
inductive TypeCall
  /-- The struct with the given members. -/
  | struct (members : List CType)
  /-- A struct of its own. -/
  | declare
  /-- The members of a declared struct. -/
  | resolve (n : Nat) (members : List CType)
  /-- The wrapped array of the given element type and size. -/
  | array (elem : CType) (size : Nat)
  /-- The pointer to functions of a signature. -/
  | function (result : CType) (params : List CType)
  /-- The pointer to a type. -/
  | pointer (ty : CType) (isConst : Bool)

namespace TypeCall

/-- What a call does, and the type it gives. -/
def run : TypeCall → Emit CType
  | struct members => Emit.structType members
  | declare => do pure { head := .struct (← Emit.declareStruct) }
  | resolve n members => do
    Emit.resolveStruct n members
    pure { head := .struct n }
  | array elem size => Emit.arrayType elem size
  | function result params => Emit.functionType result params
  | pointer ty isConst => Emit.pointerFor ty isConst

/-- The types that a call is given. -/
def args : TypeCall → List CType
  | struct members | resolve _ members => members
  | declare => []
  | array elem _ => [elem]
  | function result params => result :: params
  | pointer ty _ => [ty]

/-- Whether a call asks for a type by its shape. -/
def isLookup : TypeCall → Bool
  | struct _ | array _ _ | function _ _ => true
  | declare | resolve _ _ | pointer _ _ => false

/-- Whether a call gives a type with a head of its own that may be new. -/
def isShape : TypeCall → Bool
  | struct _ | array _ _ | function _ _ | declare => true
  | resolve _ _ | pointer _ _ => false

end TypeCall

/-- How a call may end in a draft. -/
inductive TypeOutcome (d : Draft) : TypeCall → CType → Draft → Prop
  | knownStruct {members : List CType} {n : Nat} (h : d.unit.types.structs.get? n = some (.interned members)) :
      TypeOutcome d (.struct members) { head := .struct n } d
  | newStruct {members : List CType} (h : ∀ n, d.unit.types.structs.get? n ≠ some (.interned members)) :
      TypeOutcome d (.struct members) { head := .struct d.structCount } (d.addStruct (.interned members))
  | declare : TypeOutcome d .declare { head := .struct d.structCount } (d.addStruct .declared)
  | resolve {n : Nat} {members : List CType} (h : d.unit.types.structs.get? n = some .declared) :
      TypeOutcome d (.resolve n members) { head := .struct n } (d.fillStruct n members)
  | knownArray {elem : CType} {size n : Nat} (h : d.unit.types.arrays.get? n = some ⟨elem, size⟩) :
      TypeOutcome d (.array elem size) { head := .array n } d
  | newArray {elem : CType} {size : Nat} (h : ∀ n, d.unit.types.arrays.get? n ≠ some ⟨elem, size⟩) :
      TypeOutcome d (.array elem size) { head := .array d.arrayCount } (d.addArray ⟨elem, size⟩)
  | knownFunction {result : CType} {params : List CType} {n : Nat}
      (h : d.unit.types.functions.get? n = some ⟨result, params⟩) :
      TypeOutcome d (.function result params) { head := .function n } d
  | newFunction {result : CType} {params : List CType}
      (h : ∀ n, d.unit.types.functions.get? n ≠ some ⟨result, params⟩) :
      TypeOutcome d (.function result params) { head := .function d.functionCount } (d.addFunction ⟨result, params⟩)
  | pointer {ty ty' : CType} {isConst : Bool} (h : ty.pointerTo? (if isConst then .readOnly else .plain) = some ty') :
      TypeOutcome d (.pointer ty isConst) ty' d

variable {d d' : Draft} {options : Options}

theorem C.Shapes.get?_of_findIdx? {α : Type} [BEq α] [LawfulBEq α] {s : C.Shapes α} {shape : α} {n : Nat}
    (h : s.shapes.findIdx? (· == shape) = some n) : s.get? n = some shape := by
  obtain ⟨hlt, heq, -⟩ := Array.findIdx?_eq_some_iff_getElem.1 h
  exact Array.getElem?_eq_some_iff.2 ⟨hlt, eq_of_beq heq⟩

theorem C.Shapes.get?_ne_of_findIdx? {α : Type} [BEq α] [LawfulBEq α] {s : C.Shapes α} {shape : α}
    (h : s.shapes.findIdx? (· == shape) = none) (n : Nat) : s.get? n ≠ some shape := by
  intro hn
  have hmem := Array.mem_of_getElem? hn
  have hfalse := Array.findIdx?_eq_none_iff.1 h shape hmem
  simp at hfalse

/-- A call that does not fail ends in one of these ways. -/
theorem TypeCall.outcome {call : TypeCall} {ty : CType} (h : call.run d = .ok (ty, d')) :
    TypeOutcome d call ty d' := by
  cases call with
  | struct members =>
    obtain ⟨n, hn, rfl, rfl⟩ | ⟨hnone, -, rfl, rfl⟩ := Ensures.structType_cases ty d' h
    · exact .knownStruct (C.Shapes.get?_of_findIdx? hn)
    · exact .newStruct (C.Shapes.get?_ne_of_findIdx? hnone)
  | declare =>
    obtain ⟨⟨n, d₁⟩, hrun, h⟩ := exists_of_bind_eq_ok h
    obtain ⟨-, rfl, rfl⟩ := Ensures.declareStruct_eq n d₁ hrun
    cases h
    exact .declare
  | resolve n members =>
    obtain ⟨⟨_, d₁⟩, hrun, h⟩ := exists_of_bind_eq_ok h
    obtain ⟨hn, rfl⟩ := Ensures.resolveStruct_eq _ d₁ hrun
    cases h
    exact .resolve hn
  | array elem size =>
    obtain ⟨n, hn, rfl, rfl⟩ | ⟨hnone, -, rfl, rfl⟩ := Ensures.arrayType_cases ty d' h
    · exact .knownArray (C.Shapes.get?_of_findIdx? hn)
    · exact .newArray (C.Shapes.get?_ne_of_findIdx? hnone)
  | function result params =>
    obtain ⟨n, hn, rfl, rfl⟩ | ⟨hnone, -, rfl, rfl⟩ := Ensures.functionType_cases ty d' h
    · exact .knownFunction (C.Shapes.get?_of_findIdx? hn)
    · exact .newFunction (C.Shapes.get?_ne_of_findIdx? hnone)
  | pointer ty₀ isConst =>
    change Emit.pointerTo ty₀ _ d = _ at h
    unfold Emit.pointerTo at h
    cases hty : ty₀.pointerTo? (if isConst then .readOnly else .plain) with
    | none =>
      rw [hty] at h
      cases h
    | some ty₁ =>
      rw [hty] at h
      cases h
      exact .pointer hty

/-! ### Answers -/

/-- The calls of a run and the types they gave, the first call first. -/
abbrev TypeLog := List (TypeCall × CType)

/-- The answers to calls that ask for shapes of one kind are those of the table of that kind, which has no shape
twice. -/
structure Answers {α β : Type} (log : TypeLog) (call : α → TypeCall) (head : Nat → Head) (shape : α → β)
    (s : C.Shapes β) : Prop where
  mem_iff : ∀ a ty, (call a, ty) ∈ log ↔ ∃ n, ty = { head := head n } ∧ s.get? n = some (shape a)
  once : ∀ n n' a, s.get? n = some (shape a) → s.get? n' = some (shape a) → n = n'

namespace Answers

variable {α β : Type} {log : TypeLog} {call : α → TypeCall} {head : Nat → Head} {shape : α → β} {s s' : C.Shapes β}

/-- Another call leaves the shapes that are asked for as they are. -/
theorem other (h : Answers log call head shape s) {call' : TypeCall} (hcall : ∀ a, call a ≠ call')
    (hs : ∀ n a, s'.get? n = some (shape a) ↔ s.get? n = some (shape a)) (ty : CType) :
    Answers (log ++ [(call', ty)]) call head shape s' where
  mem_iff a ty' := by
    simp only [List.mem_append, List.mem_singleton, Prod.mk.injEq, hcall a, false_and, or_false, h.mem_iff, hs]
  once n n' a hn hn' := h.once n n' a ((hs n a).1 hn) ((hs n' a).1 hn')

/-- A call for a shape that is known gets the same answer. -/
theorem known (h : Answers log call head shape s) {a : α} {n : Nat} (hn : s.get? n = some (shape a)) :
    Answers (log ++ [(call a, { head := head n })]) call head shape s where
  mem_iff a' ty := by
    rw [List.mem_append, List.mem_singleton, h.mem_iff]
    constructor
    · rintro (hold | heq)
      · exact hold
      · exact (h.mem_iff a' ty).1 (heq ▸ (h.mem_iff a _).2 ⟨n, rfl, hn⟩)
    · exact .inl
  once := h.once

/-- A call for a new shape registers it. -/
theorem new (h : Answers log call head shape s) {a : α} {names : Array String}
    (hcall : ∀ a', call a' = call a → a' = a) (hshape : ∀ a', shape a' = shape a → a' = a)
    (hnew : ∀ n, s.get? n ≠ some (shape a)) :
    Answers (log ++ [(call a, { head := head s.shapes.size })]) call head shape ⟨s.shapes.push (shape a), names⟩ := by
  have hget (n : Nat) (a' : α) : (⟨s.shapes.push (shape a), names⟩ : C.Shapes β).get? n = some (shape a') ↔
      s.get? n = some (shape a') ∨ n = s.shapes.size ∧ a' = a := by
    simp only [C.Shapes.get?, Array.getElem?_push]
    by_cases hn : n = s.shapes.size
    · subst hn
      simp only [if_true, Option.some.injEq, true_and]
      constructor
      · exact fun heq => .inr (hshape a' heq.symm)
      · rintro (hold | rfl)
        · simp at hold
        · rfl
    · simp [hn]
  refine ⟨fun a' ty => ?_, fun n n' a' hn hn' => ?_⟩
  · simp only [List.mem_append, List.mem_singleton, Prod.mk.injEq, h.mem_iff, hget]
    constructor
    · rintro (⟨n, hty, hn⟩ | ⟨heq, hty⟩)
      · exact ⟨n, hty, .inl hn⟩
      · exact ⟨_, hty, .inr ⟨rfl, hcall a' heq⟩⟩
    · rintro ⟨n, hty, hn | ⟨rfl, rfl⟩⟩
      · exact .inl ⟨n, hty, hn⟩
      · exact .inr ⟨rfl, hty⟩
  · rcases (hget n a').1 hn with hold | ⟨rfl, rfl⟩ <;> rcases (hget n' a').1 hn' with hold' | ⟨rfl, heq⟩
    · exact h.once n n' a' hold hold'
    · exact absurd (heq ▸ hold) (hnew n)
    · exact absurd hold' (hnew n')
    · rfl

end Answers

/-- A type that is at hand: a scalar, the typedef of one, or the answer to a call. -/
def Obtained (log : TypeLog) (d : Draft) (ty : CType) : Prop :=
  (∃ s, ty = .ofScalar s) ∨ ty ∈ d.builtins ∨ ∃ call, (call, ty) ∈ log

/-- The answers that were given fit the tables of a draft. -/
structure TypeLog.Fits (log : TypeLog) (d : Draft) : Prop where
  structs : Answers log .struct .struct .interned d.unit.types.structs
  arrays : Answers log (fun shape : ArrayShape => .array shape.elem shape.size) .array id d.unit.types.arrays
  functions : Answers log (fun shape : FunctionShape => .function shape.result shape.params) .function id
    d.unit.types.functions
  declared : ∀ ty, (.declare, ty) ∈ log → ∃ n shape, ty = { head := .struct n } ∧
    d.unit.types.structs.get? n = some shape ∧ ∀ members, shape ≠ .interned members
  named : ∀ ty, Obtained log d ty → (d.unit.types.headName? ty.head).isSome = true ∧ ∃ ls, ty.chain.Packs ls

namespace TypeLog.Fits

variable {log : TypeLog}

/-- The types that are at hand stay named. -/
theorem named_append (hlog : log.Fits d) (hbuiltins : d'.builtins = d.builtins)
    (hnames : ∀ head, (d.unit.types.headName? head).isSome = true → (d'.unit.types.headName? head).isSome = true)
    {call : TypeCall} {ty : CType}
    (hty : (d'.unit.types.headName? ty.head).isSome = true ∧ ∃ ls, ty.chain.Packs ls) (ty' : CType)
    (h : Obtained (log ++ [(call, ty)]) d' ty') :
    (d'.unit.types.headName? ty'.head).isSome = true ∧ ∃ ls, ty'.chain.Packs ls := by
  have hold (h : Obtained log d ty') :
      (d'.unit.types.headName? ty'.head).isSome = true ∧ ∃ ls, ty'.chain.Packs ls :=
    ⟨hnames _ (hlog.named ty' h).1, (hlog.named ty' h).2⟩
  rcases h with hscalar | hbuiltin | ⟨call', hmem⟩
  · exact hold (.inl hscalar)
  · exact hold (.inr (.inl (hbuiltins ▸ hbuiltin)))
  · rcases List.mem_append.1 hmem with hmem | hmem
    · exact hold (.inr (.inr ⟨call', hmem⟩))
    · cases List.mem_singleton.1 hmem
      exact hty

/-- Declared structs stay so when the table only changes in the ways that drafts change it. -/
theorem declared_append (hlog : log.Fits d)
    (hget : ∀ n shape, d.unit.types.structs.get? n = some shape → (∀ members, shape ≠ .interned members) →
      ∃ shape', d'.unit.types.structs.get? n = some shape' ∧ ∀ members, shape' ≠ .interned members)
    {call : TypeCall} {ty : CType} (hnew : call = .declare → ∃ n shape, ty = { head := .struct n } ∧
      d'.unit.types.structs.get? n = some shape ∧ ∀ members, shape ≠ .interned members)
    (ty' : CType) (h : (.declare, ty') ∈ log ++ [(call, ty)]) : ∃ n shape, ty' = { head := .struct n } ∧
      d'.unit.types.structs.get? n = some shape ∧ ∀ members, shape ≠ .interned members := by
  rcases List.mem_append.1 h with hmem | hmem
  · obtain ⟨n, shape, hty, hn, hshape⟩ := hlog.declared ty' hmem
    obtain ⟨shape', hn', hshape'⟩ := hget n shape hn hshape
    exact ⟨n, shape', hty, hn', hshape'⟩
  · cases List.mem_singleton.1 hmem
    exact hnew rfl

end TypeLog.Fits

/-! ### Steps -/

/-- A name is given to every head below the number of shapes. -/
theorem Draft.Named.lt_of_isSome (hd : d.Named) {head : Head} (h : (d.unit.types.headName? head).isSome = true) :
    (∀ n, head = .struct n → n < d.structCount) ∧ (∀ n, head = .array n → n < d.arrayCount) ∧
      ∀ n, head = .function n → n < d.functionCount := by
  have hlt {names : Array String} {n : Nat} (h : names[n]?.isSome = true) : n < names.size := by
    simpa using h
  refine ⟨?_, ?_, ?_⟩ <;> rintro n rfl
  · exact hd.structs ▸ hlt h
  · exact hd.arrays ▸ hlt h
  · exact hd.functions ▸ hlt h

namespace TypeOutcome

variable {call : TypeCall} {ty : CType} {log : TypeLog}

theorem keepsNamed (h : TypeOutcome d call ty d') (hd : d.Named) : d'.Named := by
  cases h with
  | knownStruct | knownArray | knownFunction | pointer => exact hd
  | newStruct | declare => exact hd.addStruct _
  | newArray => exact hd.addArray _
  | newFunction => exact hd.addFunction _
  | resolve => exact hd.fillStruct _ _

theorem keepsListed (h : TypeOutcome d call ty d') (hd : d.Listed) (hnamed : d.Named) (hlog : log.Fits d)
    (hargs : ∀ a ∈ call.args, Obtained log d a) : d'.Listed := by
  cases h with
  | knownStruct | knownArray | knownFunction | pointer => exact hd
  | newStruct | declare => exact hd.addStruct _
  | newArray => exact hd.addArray _
  | newFunction =>
    exact hd.addFunction _ fun ty hty k hk => (hnamed.lt_of_isSome (hlog.named ty (hargs ty hty)).1).2.2 k hk
  | resolve hn => exact hd.fillStruct hn

/-- The names of a draft stay. -/
theorem isSome_headName? (h : TypeOutcome d call ty d') (head : Head)
    (hhead : (d.unit.types.headName? head).isSome = true) : (d'.unit.types.headName? head).isSome = true := by
  have hpush {names : Array String} {name : String} {n : Nat} (h : names[n]?.isSome = true) :
      (names.push name)[n]?.isSome = true := by
    have hlt : n < names.size := by simpa using h
    simp [Nat.lt_succ_of_lt hlt]
  cases h with
  | knownStruct | knownArray | knownFunction | pointer => exact hhead
  | newStruct | declare | newArray | newFunction =>
    cases head <;> first | exact hhead | exact hpush hhead
  | resolve => cases head <;> exact hhead

/-- The type that a call gives is named. -/
theorem named (h : TypeOutcome d call ty d') (hd : d.Named) (hlog : log.Fits d)
    (hargs : ∀ a ∈ call.args, Obtained log d a) :
    (d'.unit.types.headName? ty.head).isSome = true ∧ ∃ ls, ty.chain.Packs ls := by
  have hsome {names : Array String} {n : Nat} (h : n < names.size) : names[n]?.isSome = true := by
    simpa using h
  have hlt {α : Type} {s : C.Shapes α} {n : Nat} {shape : α} (h : s.get? n = some shape) : n < s.shapes.size :=
    (Array.getElem?_eq_some_iff.1 h).1
  have hpushed {α : Type} {shapes : Array α} {shape : α} : shapes.size < (shapes.push shape).size := by
    simp
  have hnamed := h.keepsNamed hd
  cases h with
  | knownStruct hn => exact ⟨hsome (hd.structs ▸ hlt hn), [], .empty⟩
  | knownArray hn => exact ⟨hsome (hd.arrays ▸ hlt hn), [], .empty⟩
  | knownFunction hn => exact ⟨hsome (hd.functions ▸ hlt hn), [], .empty⟩
  | newStruct | declare =>
    exact ⟨hsome (hnamed.structs ▸ hpushed), [], .empty⟩
  | newArray => exact ⟨hsome (hnamed.arrays ▸ hpushed), [], .empty⟩
  | newFunction => exact ⟨hsome (hnamed.functions ▸ hpushed), [], .empty⟩
  | resolve hn => exact ⟨hsome (hd.structs ▸ hlt hn), [], .empty⟩
  | @pointer ty₀ _ _ hty =>
    obtain ⟨chain, hchain, rfl⟩ := Option.map_eq_some_iff.1 hty
    obtain ⟨hname, ls, hls⟩ := hlog.named ty₀ (hargs ty₀ List.mem_cons_self)
    exact ⟨hname, _, hls.push hchain⟩

/-- A struct that is not found by its members stays so. -/
theorem declared_stays (h : TypeOutcome d call ty d') (n : Nat) (shape : StructShape)
    (hn : d.unit.types.structs.get? n = some shape) (hshape : ∀ members, shape ≠ .interned members) :
    ∃ shape', d'.unit.types.structs.get? n = some shape' ∧ ∀ members, shape' ≠ .interned members := by
  have hlt := (Array.getElem?_eq_some_iff.1 hn).1
  cases h with
  | knownStruct | knownArray | knownFunction | pointer | newArray | newFunction => exact ⟨shape, hn, hshape⟩
  | newStruct | declare => exact ⟨shape, (Array.getElem?_push_lt hlt).trans (Array.getElem?_eq_getElem hlt ▸ hn), hshape⟩
  | @resolve k members hk =>
    by_cases hnk : k = n
    · subst hnk
      exact ⟨.resolved members, by simp [Draft.fillStruct, C.Shapes.get?, hlt], nofun⟩
    · exact ⟨shape, (Array.getElem?_setIfInBounds_ne hnk).trans hn, hshape⟩

/-- A call leaves the answers that were given in step with the tables. -/
theorem fits (h : TypeOutcome d call ty d') (hd : d.Named) (hlog : log.Fits d)
    (hargs : ∀ a ∈ call.args, Obtained log d a) : TypeLog.Fits (log ++ [(call, ty)]) d' := by
  have hbuiltins : d'.builtins = d.builtins := by cases h <;> rfl
  have hnamed := @TypeLog.Fits.named_append _ _ _ hlog hbuiltins h.isSome_headName? call ty (h.named hd hlog hargs)
  have hstays := @TypeLog.Fits.declared_append _ _ _ hlog h.declared_stays call ty
  have hpush {shape : StructShape} (hshape : ∀ members, shape ≠ .interned members) (n : Nat) (members : List CType) :
      (d.addStruct shape).unit.types.structs.get? n = some (.interned members) ↔
        d.unit.types.structs.get? n = some (.interned members) := by
    have hget : (d.addStruct shape).unit.types.structs.get? n =
        if n = d.structCount then some shape else d.unit.types.structs.get? n := Array.getElem?_push
    rw [hget]
    by_cases hn : n = d.structCount
    · subst hn
      simp [hshape, C.Shapes.get?]
    · rw [if_neg hn]
  cases h with
  | knownStruct hn =>
    exact ⟨hlog.structs.known hn, hlog.arrays.other (by rintro _ ⟨⟩) (fun _ _ => .rfl) _,
      hlog.functions.other (by rintro _ ⟨⟩) (fun _ _ => .rfl) _, hstays (by rintro ⟨⟩), hnamed⟩
  | newStruct hnew =>
    exact ⟨hlog.structs.new (by rintro _ ⟨⟩; rfl) (by rintro _ ⟨⟩; rfl) hnew,
      hlog.arrays.other (by rintro _ ⟨⟩) (fun _ _ => .rfl) _, hlog.functions.other (by rintro _ ⟨⟩) (fun _ _ => .rfl) _, hstays (by rintro ⟨⟩), hnamed⟩
  | declare =>
    refine ⟨hlog.structs.other (by rintro _ ⟨⟩) (hpush (by rintro _ ⟨⟩)) _, hlog.arrays.other (by rintro _ ⟨⟩) (fun _ _ => .rfl) _,
      hlog.functions.other (by rintro _ ⟨⟩) (fun _ _ => .rfl) _, hstays fun _ => ?_, hnamed⟩
    exact ⟨d.structCount, .declared, rfl, Array.getElem?_push_size, by rintro _ ⟨⟩⟩
  | @resolve n members hn =>
    refine ⟨hlog.structs.other (by rintro _ ⟨⟩) (fun k ms => ?_) _, hlog.arrays.other (by rintro _ ⟨⟩) (fun _ _ => .rfl) _,
      hlog.functions.other (by rintro _ ⟨⟩) (fun _ _ => .rfl) _, hstays (by rintro ⟨⟩), hnamed⟩
    by_cases hnk : n = k
    · subst hnk
      have hlt := (Array.getElem?_eq_some_iff.1 hn).1
      rw [hn]
      simp [Draft.fillStruct, C.Shapes.get?, hlt]
    · exact (Array.getElem?_setIfInBounds_ne hnk).congr_left
  | knownArray hn =>
    exact ⟨hlog.structs.other (by rintro _ ⟨⟩) (fun _ _ => .rfl) _, hlog.arrays.known (a := ⟨_, _⟩) hn,
      hlog.functions.other (by rintro _ ⟨⟩) (fun _ _ => .rfl) _, hstays (by rintro ⟨⟩), hnamed⟩
  | newArray hnew =>
    exact ⟨hlog.structs.other (by rintro _ ⟨⟩) (fun _ _ => .rfl) _,
      hlog.arrays.new (a := ⟨_, _⟩) (by rintro ⟨_, _⟩ ⟨⟩; rfl) (fun _ h => h) hnew,
      hlog.functions.other (by rintro _ ⟨⟩) (fun _ _ => .rfl) _, hstays (by rintro ⟨⟩), hnamed⟩
  | knownFunction hn =>
    exact ⟨hlog.structs.other (by rintro _ ⟨⟩) (fun _ _ => .rfl) _, hlog.arrays.other (by rintro _ ⟨⟩) (fun _ _ => .rfl) _,
      hlog.functions.known (a := ⟨_, _⟩) hn, hstays (by rintro ⟨⟩), hnamed⟩
  | newFunction hnew =>
    exact ⟨hlog.structs.other (by rintro _ ⟨⟩) (fun _ _ => .rfl) _, hlog.arrays.other (by rintro _ ⟨⟩) (fun _ _ => .rfl) _,
      hlog.functions.new (a := ⟨_, _⟩) (by rintro ⟨_, _⟩ ⟨⟩; rfl) (fun _ h => h) hnew, hstays (by rintro ⟨⟩), hnamed⟩
  | pointer =>
    exact ⟨hlog.structs.other (by rintro _ ⟨⟩) (fun _ _ => .rfl) _, hlog.arrays.other (by rintro _ ⟨⟩) (fun _ _ => .rfl) _,
      hlog.functions.other (by rintro _ ⟨⟩) (fun _ _ => .rfl) _, hstays (by rintro ⟨⟩), hnamed⟩

end TypeOutcome

/-! ### Runs -/

/-- The draft of a run in which the given calls were made, each with types that were at hand, and gave the given
types. -/
inductive TypeRun (options : Options) : TypeLog → Draft → Prop
  | new {d : Draft} (h : Draft.new options = .ok d) : TypeRun options [] d
  | call {log : TypeLog} {d d' : Draft} {call : TypeCall} {ty : CType} (h : TypeRun options log d)
      (hargs : ∀ a ∈ call.args, Obtained log d a) (hrun : call.run d = .ok (ty, d')) :
      TypeRun options (log ++ [(call, ty)]) d'

/-- The scalars and their typedefs have distinct names. -/
theorem inj_of_not_isShape {types : C.TypeTable} (hnames : types.typedefs.names.toList = Builtin.all.map typedefName)
    {head head' : Head} {name : String} (hhead : head.isShape = false) (hhead' : head'.isShape = false)
    (h : types.headName? head = some name) (h' : types.headName? head' = some name) : head = head' := by
  have htypedef {n : Nat} {name : String} (h : types.headName? (.typedef n) = some name) :
      ∃ kind, Builtin.all[n]? = some kind ∧ name = typedefName kind := by
    have hget : (Builtin.all.map typedefName)[n]? = some name := by
      rw [← hnames, Array.getElem?_toList]
      exact h
    rw [List.getElem?_map] at hget
    obtain ⟨kind, hkind, rfl⟩ := Option.map_eq_some_iff.1 hget
    exact ⟨kind, hkind, rfl⟩
  have hscalar {n : Nat} {s : C.Scalar} (h : types.headName? (.typedef n) = some s.spelling) : False := by
    obtain ⟨kind, -, heq⟩ := htypedef h
    exact typedefName_ne_spelling kind s heq.symm
  cases head with
  | struct | array | function => cases hhead
  | scalar s =>
    cases h
    cases head' with
    | struct | array | function => cases hhead'
    | scalar s' => rw [spelling_inj (Option.some.inj h')]
    | typedef n => exact (hscalar h').elim
  | typedef n =>
    cases head' with
    | struct | array | function => cases hhead'
    | scalar s =>
      cases h'
      exact (hscalar h).elim
    | typedef n' =>
      obtain ⟨kind, hkind, rfl⟩ := htypedef h
      obtain ⟨kind', hkind', heq⟩ := htypedef h'
      cases typedefName_inj heq
      have hnodup : Builtin.all.Nodup := by decide
      have hlt := (List.getElem?_eq_some_iff.1 hkind).1
      rw [(List.getElem?_inj hlt hnodup).1 (hkind.trans hkind'.symm)]

/-- The typedefs stand for scalars and for earlier typedefs. -/
theorem Draft.head_of_get?_registered {n : Nat} {ty : CType}
    (h : (registered options Builtin.all).unit.types.typedefs.get? n = some ty) :
    (∃ s, ty.head = .scalar s) ∨ ∃ k < n, ty.head = .typedef k := by
  have hget : (Builtin.all.map fun kind => (options.target.aliased? kind).getD .void)[n]? = some ty := by
    rw [← List.getElem?_toArray]
    exact h
  rw [List.getElem?_map] at hget
  obtain ⟨kind, hkind, rfl⟩ := Option.map_eq_some_iff.1 hget
  cases kind with
  | f32 | f64 | bool | i8 | u8 => exact .inl ⟨_, rfl⟩
  | char =>
    obtain ⟨hlt, -⟩ := List.getElem?_eq_some_iff.1 hkind
    have hlater : ∀ n < Builtin.all.length, Builtin.all[n]? = some .char → Builtin.all.idxOf .u32 < n := by decide
    exact .inr ⟨_, hlater n hlt hkind, rfl⟩
  | i16 | i32 | i64 | u16 | u32 | u64 =>
    have hscalar (o : Option C.Scalar) : ∃ s, ((o.map CType.ofScalar).getD .void).head = .scalar s := by
      cases o <;> exact ⟨_, rfl⟩
    exact .inl (hscalar _)

/-- What holds of a new draft. -/
theorem Draft.invariant_of_new (h : Draft.new options = .ok d) : d.Named ∧ d.Listed ∧ TypeLog.Fits [] d := by
  cases Draft.eq_registered h
  have hnone (head : Head) (hhead : head.isShape = true) :
      (registered options Builtin.all).unit.types.headName? head = none := by
    cases head with
    | scalar | typedef => cases hhead
    | struct | array | function => rfl
  have hempty {α β : Type} {call : α → TypeCall} {head : Nat → Head} {shape : α → β} :
      Answers [] call head shape {} :=
    ⟨fun a ty => by simp [C.Shapes.get?], fun n n' a h _ => by cases h⟩
  refine ⟨?_, ?_, ⟨hempty, hempty, hempty, by simp, ?_⟩⟩
  · exact
      { structs := rfl
        arrays := rfl
        functions := rfl
        typedefs := rfl
        numbered := fun head name hhead h => by rw [hnone head hhead] at h; cases h
        inj := fun head head' name h h' => by
          cases hhead : head.isShape with
          | true => rw [hnone head hhead] at h; cases h
          | false =>
            cases hhead' : head'.isShape with
            | true => rw [hnone head' hhead'] at h'; cases h'
            | false => exact inj_of_not_isShape rfl hhead hhead' h h' }
  · exact
      { forwards := fun head => by
          cases head <;> simp [registered, Draft.declares, Draft.structCount, Draft.arrayCount]
        bodies := fun head => by
          cases head <;>
            simp [registered, Draft.defines, C.TypeTable.isStructResolved, C.Shapes.get?, Draft.arrayCount]
        typedefs := by simp [registered, Draft.functionCount]
        aliases := fun _ _ => head_of_get?_registered
        earlier := fun n shape h => by cases h }
  · rintro ty (⟨s, rfl⟩ | hmem | ⟨call, hmem⟩)
    · exact ⟨rfl, [], .empty⟩
    · obtain ⟨n, hn, rfl⟩ : ∃ n < Builtin.all.length, { head := .typedef n } = ty := by
        simpa [registered] using hmem
      refine ⟨?_, [], .empty⟩
      simpa [registered, C.TypeTable.headName?, C.Shapes.name?] using hn
    · cases hmem

/-- What holds after any calls. -/
theorem TypeRun.invariant {log : TypeLog} (h : TypeRun options log d) :
    d.Named ∧ d.Listed ∧ log.Fits d := by
  induction h with
  | new h => exact Draft.invariant_of_new h
  | call _ hargs hrun ih =>
    obtain ⟨hnamed, hlisted, hlog⟩ := ih
    have houtcome := TypeCall.outcome hrun
    exact ⟨houtcome.keepsNamed hnamed, houtcome.keepsListed hlisted hnamed hlog hargs, houtcome.fits hnamed hlog hargs⟩

/-- Calls write nothing but types. -/
theorem TypeRun.rest {log : TypeLog} (h : TypeRun options log d) :
    d.unit.includes = #[] ∧ d.unit.prototypes = #[] ∧ d.unit.statics = #[] ∧ d.unit.definitions = #[] := by
  induction h with
  | new h =>
    cases Draft.eq_registered h
    exact ⟨rfl, rfl, rfl, rfl⟩
  | call _ _ hrun ih => cases TypeCall.outcome hrun <;> exact ih

end CBackend
