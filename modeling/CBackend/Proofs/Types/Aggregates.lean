import CBackend.Proofs.Linkage.Types
import CBackend.Proofs.Types.Operations
import Mathlib.Data.List.Forall2
import Mathlib.Logic.Relation

/-!
# How types come about

Lowering a type is a sequence of small changes: a type is registered, an aggregate is given a struct, or it goes from
one state to the next. What holds of the types of a draft is proved one change at a time, and so it holds at every
moment, also while the members of aggregates are being lowered.
-/

namespace CBackend

open IR
open C (CType StructShape ArrayShape FunctionShape)

/-! ### Changes -/

/-- Nothing changes that belongs to types. -/
structure TypesKept (d d' : Draft) : Prop where
  builtins : d'.builtins = d.builtins
  types : d'.unit.types = d.unit.types
  bodies : d'.unit.bodies = d.unit.bodies
  aggregates : d'.aggregates = d.aggregates

/-- One change of the types of a draft. -/
inductive TypeStep (m : Module) : Draft → Draft → Prop
  /-- Something else is changed. -/
  | rest {d d' : Draft} (h : TypesKept d d') : TypeStep m d d'
  /-- A struct with new members is registered. -/
  | struct {d : Draft} (members : List CType) (hnames : d.unit.types.structs.names.size = d.structCount) :
      TypeStep m d (d.addStruct (.interned members))
  /-- A wrapped array of a new shape is registered. -/
  | array {d : Draft} (shape : ArrayShape) (hnames : d.unit.types.arrays.names.size = d.arrayCount) :
      TypeStep m d (d.addArray shape)
  /-- A function type of a new shape is registered. -/
  | function {d : Draft} (shape : FunctionShape) (hnames : d.unit.types.functions.names.size = d.functionCount) :
      TypeStep m d (d.addFunction shape)
  /-- An aggregate is given a struct of its own. -/
  | declare {d : Draft} {id : AggregateId} {state : AggregateState} (hnone : d.aggregates.lookup id = none)
      (hnames : d.unit.types.structs.names.size = d.structCount) (hnumber : state.structNumber = d.structCount)
      (hstate : ∀ n, state ≠ .resolved n) :
      TypeStep m d { d.addStruct .declared with aggregates := (id, state) :: d.aggregates }
  /-- The members of an aggregate are about to be lowered. -/
  | start {d : Draft} {id : AggregateId} {n : Nat} (hid : d.aggregates.lookup id = some (.declared n)) :
      TypeStep m d { d with aggregates := (id, .resolving n) :: d.aggregates }
  /-- The members of an aggregate have been lowered, and its struct gets their types. -/
  | finish {d : Draft} {id : AggregateId} {n : Nat} {decl : Aggregate} {members : List CType}
      (hid : d.aggregates.lookup id = some (.resolving n))
      (hdeclared : d.unit.types.structs.get? n = some .declared) (hdecl : m.aggregate? id = some decl)
      (hmembers : decl.members.mapM (typeOf? m) d = some members) :
      TypeStep m d { d.fillStruct n members with aggregates := (id, .resolved n) :: d.aggregates }

/-- Changes of the types of a draft. -/
abbrev TypeSteps (m : Module) : Draft → Draft → Prop :=
  Relation.ReflTransGen (TypeStep m)

variable {m : Module} {d d' : Draft} {id : AggregateId} {n : Nat}

instance : Std.Refl (TypeSteps m) :=
  ⟨fun _ => .refl⟩

instance : KeepsShapes (TypeSteps m) where
  struct members d ty d' h := by
    obtain ⟨n, -, -, rfl⟩ | ⟨-, hnames, -, rfl⟩ := Ensures.structType_cases ty d' h
    · exact .refl
    · exact .single (.struct members hnames)
  array elem size d ty d' h := by
    obtain ⟨n, -, -, rfl⟩ | ⟨-, hnames, -, rfl⟩ := Ensures.arrayType_cases ty d' h
    · exact .refl
    · exact .single (.array ⟨elem, size⟩ hnames)
  function result params d ty d' h := by
    obtain ⟨n, -, -, rfl⟩ | ⟨-, hnames, -, rfl⟩ := Ensures.functionType_cases ty d' h
    · exact .refl
    · exact .single (.function ⟨result, params⟩ hnames)

/-- The types of members can be looked up once they have been lowered. -/
theorem Finds.members {aggregate : AggregateId → Bool → Emit CType}
    (h : ∀ id define, Finds (aggregate id define) (aggregateOf? id)) (tys : List Ty) :
    Finds (tys.mapM fun ty => Lowering.ofTy m aggregate ty true) (tys.mapM (typeOf? m)) := by
  refine .mapM (List.forall₂_same.2 fun _ _ => rfl) (R := Eq) ?_ fun ty _ => stable_typeOf? m ty
  rintro ty _ rfl
  exact .ofTy h ty true

namespace Keeps

/-- The members of an aggregate are lowered, given how the aggregates in it are. -/
theorem resolve_steps {depth : Nat} {d₀ : Draft}
    (hinner : ∀ id define, Keeps (TypeSteps m) (Lowering.aggregateType m depth id define))
    (hstart : TypeSteps m d₀ { d with aggregates := (id, .resolving n) :: d.aggregates }) :
    Ensures d (Lowering.resolve m (Lowering.aggregateType m depth) id n) fun _ d' => TypeSteps m d₀ d' := by
  refine .bind (.modify (Φ := fun _ d₁ => d₁ = _) rfl) ?_
  rintro _ _ rfl
  refine .lift_bind fun decl hdecl => ?_
  have hsteps : Keeps (TypeSteps m) (decl.members.mapM fun ty =>
      Lowering.ofTy m (Lowering.aggregateType m depth) ty true) :=
    .mapM fun ty _ => .ofTy hinner ty true
  have hquiet : Quietly false (decl.members.mapM fun ty =>
      Lowering.ofTy m (Lowering.aggregateType m depth) ty true) :=
    .mono (.mapM fun ty _ => .ofTy (.refl m) (Quietly.aggregateType (.refl m) le_rfl) ty true) fun _ _ => trivial
  refine .bind (Q := fun members d₂ => TypeSteps m d₀ d₂ ∧ decl.members.mapM (typeOf? m) d₂ = some members ∧
    d₂.aggregates.lookup id = some (.resolving n)) (fun members d₂ h => ?_) ?_
  · refine ⟨hstart.trans (hsteps _ _ _ h), (Finds.members (Finds.aggregateType m depth) _ _ _ _ h).2, ?_⟩
    exact ((hquiet _ nofun).ok _ _ h).1.resolving id n List.lookup_cons_self
  · rintro members d₂ ⟨hsteps, hmembers, hid⟩
    refine .bind .resolveStruct_eq ?_
    rintro _ _ ⟨hdeclared, rfl⟩
    exact .modify (hsteps.tail (.finish hid hdeclared (eq_some_of_inRange hdecl) hmembers))

theorem aggregateType_steps : ∀ (depth : Nat) (id : AggregateId) (define : Bool),
    Keeps (TypeSteps m) (Lowering.aggregateType m depth id define)
  | 0, _, _ => .throw
  | depth + 1, id, define => by
    have hinner := aggregateType_steps depth
    refine fun d => .get_bind ?_
    dsimp only
    split
    · next n hn =>
      split
      · exact .bind (resolve_steps hinner (.single (.start hn))) fun _ _ h => .pure h
      · exact .pure .refl
    · split
      · exact .lift_bind fun _ _ => .bind (.throw (Φ := fun _ _ => False)) fun _ _ h => h.elim
      · exact .pure .refl
    · exact .pure .refl
    · exact .pure .refl
    · next hnone =>
      refine .bind .declareStruct_eq ?_
      rintro _ _ ⟨hnames, rfl, rfl⟩
      refine .lift_bind fun decl _ => ?_
      have hset (state : AggregateState) (hnumber : state.structNumber = d.structCount)
          (hstate : ∀ n, state ≠ .resolved n) :
          TypeSteps m d { d.addStruct .declared with aggregates := (id, state) :: d.aggregates } :=
        .single (.declare hnone hnames hnumber hstate)
      split
      · refine .bind (.modify (Φ := fun _ d' => TypeSteps m d d') (hset (.incomplete _) rfl nofun)) fun _ _ h => ?_
        split
        · exact .bind (.throw (Φ := fun _ _ => False)) fun _ _ h => h.elim
        · exact .pure h
      · split
        · exact .bind (resolve_steps hinner (hset (.resolving _) rfl nofun)) fun _ _ h => .pure h
        · exact .bind (.modify (Φ := fun _ d' => TypeSteps m d d') (hset (.declared _) rfl nofun)) fun _ _ h => .pure h

/-- Lowering a type makes small changes only. -/
theorem lowerType_steps {depth : Nat} {ty : Ty} {define : Bool} :
    Keeps (TypeSteps m) (Lowering.ofTy m (Lowering.aggregateType m depth) ty define) :=
  .ofTy (aggregateType_steps depth) ty define

end Keeps

/-! ### What changes keep -/

/-- How the state of an aggregate may change. -/
inductive AggregateState.Goes : AggregateState → AggregateState → Prop
  | refl (s : AggregateState) : Goes s s
  | start (n : Nat) : Goes (.declared n) (.resolving n)
  | finish (n : Nat) : Goes (.resolving n) (.resolved n)
  | both (n : Nat) : Goes (.declared n) (.resolved n)

theorem AggregateState.Goes.trans {s s₁ s₂ : AggregateState} (h : s.Goes s₁) (h' : s₁.Goes s₂) : s.Goes s₂ := by
  cases h with
  | refl => exact h'
  | start n => cases h' with
    | refl => exact .start n
    | finish => exact .both n
  | finish n => cases h' with
    | refl => exact .finish n
  | both n => cases h' with
    | refl => exact .both n

/-- A resolved aggregate stays as it is. -/
theorem AggregateState.Goes.eq_of_resolved {s : AggregateState} (h : (resolved n).Goes s) :
    s = .resolved n := by
  cases h
  rfl

/-- Types stay, and aggregates go from one state to the next. -/
structure Progress (d d' : Draft) : Prop where
  later : Later d d'
  states : ∀ id s, d.aggregates.lookup id = some s → ∃ s', d'.aggregates.lookup id = some s' ∧ s.Goes s'

theorem Progress.refl (d : Draft) : Progress d d :=
  ⟨.refl d, fun _ s h => ⟨s, h, .refl s⟩⟩

theorem Progress.trans {d₁ d₂ d₃ : Draft} (h : Progress d₁ d₂) (h' : Progress d₂ d₃) : Progress d₁ d₃ := by
  refine ⟨h.later.trans h'.later, fun id s hs => ?_⟩
  obtain ⟨s₂, hs₂, hgo⟩ := h.states id s hs
  obtain ⟨s₃, hs₃, hgo'⟩ := h'.states id s₂ hs₂
  exact ⟨s₃, hs₃, hgo.trans hgo'⟩

theorem get?_push {shapes : Array StructShape} {names names' : Array String} {shape new : StructShape}
    (h : C.Shapes.get? ⟨shapes, names⟩ n = some shape) : C.Shapes.get? ⟨shapes.push new, names'⟩ n = some shape := by
  obtain ⟨hlt, rfl⟩ := Array.getElem?_eq_some_iff.1 h
  exact Array.getElem?_push_lt hlt

/-- A type that is registered leaves the others alone. -/
theorem progress_addStruct (shape : StructShape) : Progress d (d.addStruct shape) := by
  refine ⟨⟨rfl, fun n s hn => ⟨s, get?_push hn, .inl rfl⟩, fun _ _ h => h, fun _ _ h => h,
    fun _ s h => ⟨s, h, rfl⟩⟩, fun _ s h => ⟨s, h, .refl s⟩⟩

theorem progress_addArray (shape : ArrayShape) : Progress d (d.addArray shape) := by
  refine ⟨⟨rfl, fun _ s hn => ⟨s, hn, .inl rfl⟩, fun n s hn => ?_, fun _ _ h => h,
    fun _ s h => ⟨s, h, rfl⟩⟩, fun _ s h => ⟨s, h, .refl s⟩⟩
  obtain ⟨hlt, rfl⟩ := Array.getElem?_eq_some_iff.1 hn
  exact Array.getElem?_push_lt hlt

theorem progress_addFunction (shape : FunctionShape) : Progress d (d.addFunction shape) := by
  refine ⟨⟨rfl, fun _ s hn => ⟨s, hn, .inl rfl⟩, fun _ _ h => h, fun n s hn => ?_,
    fun _ s h => ⟨s, h, rfl⟩⟩, fun _ s h => ⟨s, h, .refl s⟩⟩
  obtain ⟨hlt, rfl⟩ := Array.getElem?_eq_some_iff.1 hn
  exact Array.getElem?_push_lt hlt

/-- A declared struct gets its members, and the others keep theirs. -/
theorem progress_fillStruct {members : List CType} (h : d.unit.types.structs.get? n = some .declared) :
    Progress d (d.fillStruct n members) := by
  refine ⟨⟨rfl, fun i s hi => ?_, fun _ _ h => h, fun _ _ h => h, fun _ s h => ⟨s, h, rfl⟩⟩, fun _ s h => ⟨s, h, .refl s⟩⟩
  obtain ⟨hlt, -⟩ := Array.getElem?_eq_some_iff.1 hi
  by_cases hn : i = n
  · subst hn
    refine ⟨.resolved members, ?_, .inr ⟨Option.some.inj (hi.symm.trans h), members, rfl⟩⟩
    exact Array.getElem?_setIfInBounds_self_of_lt hlt
  · exact ⟨s, (Array.getElem?_setIfInBounds_ne (Ne.symm hn)).trans hi, .inl rfl⟩

/-- An aggregate goes to another state, or is given its first one. -/
theorem progress_setAggregate {state : AggregateState} (h : ∀ old, d.aggregates.lookup id = some old → old.Goes state) :
    Progress d { d with aggregates := (id, state) :: d.aggregates } := by
  refine ⟨later_setAggregate fun old hold => ?_, fun id' s hs => ?_⟩
  · cases h old hold <;> rfl
  · by_cases hid : id' = id
    · subst hid
      exact ⟨state, List.lookup_cons_self, h s hs⟩
    · exact ⟨s, (Draft.Consistent.lookup_cons_ne hid).trans hs, .refl s⟩

/-- A change leaves types as they are and takes aggregates on. -/
theorem TypeStep.progress (h : TypeStep m d d') : Progress d d' := by
  cases h with
  | rest h =>
    have hsame : SameTypes d d' := ⟨h.builtins, by rw [h.types], by rw [h.types], by rw [h.types], h.aggregates⟩
    exact ⟨hsame.later, fun _ s hs => ⟨s, h.aggregates ▸ hs, .refl s⟩⟩
  | struct members => exact progress_addStruct _
  | array shape => exact progress_addArray shape
  | function shape => exact progress_addFunction shape
  | declare hnone =>
    refine (progress_addStruct .declared).trans (progress_setAggregate (d := d.addStruct .declared) fun old hold => ?_)
    cases hnone.symm.trans hold
  | start hid =>
    refine progress_setAggregate fun old hold => ?_
    cases hid.symm.trans hold
    exact .start _
  | @finish _ n _ members hid hdeclared =>
    refine (progress_fillStruct hdeclared).trans (progress_setAggregate (d := d.fillStruct n members) fun old hold => ?_)
    cases hid.symm.trans hold
    exact .finish _

theorem TypeSteps.progress (h : TypeSteps m d d') : Progress d d' := by
  induction h with
  | refl => exact .refl d
  | tail _ hstep ih => exact ih.trans hstep.progress

/-! ### Aggregates in order -/

/-- The struct of an aggregate has the types of the aggregate's members, in their order, and one definition. -/
def DefinedOnce (m : Module) (d : Draft) (id : AggregateId) (n : Nat) : Prop :=
  ∃ decl members, m.aggregate? id = some decl ∧ d.unit.types.structs.get? n = some (.resolved members) ∧
    decl.members.mapM (typeOf? m) d = some members ∧ d.unit.bodies.count (.struct n) = 1

/-- The aggregates of a draft are in order: they have structs of their own, those whose members are not lowered yet
have no definition, and the others have one, with the types of their members. -/
structure Draft.Ordered (m : Module) (d : Draft) : Prop extends d.Consistent where
  bodies : ∀ n, .struct n ∈ d.unit.bodies → ∃ shape, d.unit.types.structs.get? n = some shape ∧ shape ≠ .declared
  resolved : ∀ id n, d.aggregates.lookup id = some (.resolved n) → DefinedOnce m d id n

/-- A definition stays the only one. -/
theorem DefinedOnce.later (h : DefinedOnce m d id n) (hlater : Later d d')
    (hcount : ∀ shape, d.unit.types.structs.get? n = some shape → shape ≠ .declared →
      d'.unit.bodies.count (.struct n) = d.unit.bodies.count (.struct n)) : DefinedOnce m d' id n := by
  obtain ⟨decl, members, hdecl, hn, hmembers, hone⟩ := h
  refine ⟨decl, members, hdecl, ?_, ?_, (hcount _ hn nofun).trans hone⟩
  · obtain ⟨shape, hshape, rfl | ⟨⟨⟩, -⟩⟩ := hlater.structs n _ hn
    exact hshape
  · exact Lookup.Stable.mapM (fun ty _ => stable_typeOf? m ty) d d' members hlater hmembers

namespace Draft.Ordered

/-- A change that adds at most the definition of one struct, which had none. -/
theorem of_later (hd : d.Ordered m) (hcons : d'.Consistent) (hlater : Later d d')
    (hbodies : d'.unit.bodies = d.unit.bodies ∨ ∃ head, d'.unit.bodies = d.unit.bodies.push head ∧
      ∀ n, head = .struct n → (∃ shape, d'.unit.types.structs.get? n = some shape ∧ shape ≠ .declared) ∧
        ∀ shape, d.unit.types.structs.get? n = some shape → shape = .declared)
    (hresolved : ∀ id n, d'.aggregates.lookup id = some (.resolved n) →
      d.aggregates.lookup id = some (.resolved n) ∨ DefinedOnce m d' id n) : d'.Ordered m := by
  refine ⟨hcons, fun n hn => ?_, fun id n hid => ?_⟩
  · have hold (hmem : .struct n ∈ d.unit.bodies) :
        ∃ shape, d'.unit.types.structs.get? n = some shape ∧ shape ≠ .declared := by
      obtain ⟨shape, hshape, hne⟩ := hd.bodies n hmem
      obtain ⟨shape', hshape', rfl | ⟨rfl, -⟩⟩ := hlater.structs n shape hshape
      · exact ⟨shape', hshape', hne⟩
      · exact absurd rfl hne
    obtain heq | ⟨head, heq, hhead⟩ := hbodies
    · exact hold (heq ▸ hn)
    · rw [heq, Array.mem_push] at hn
      obtain hn | hn := hn
      · exact hold hn
      · exact (hhead n hn.symm).1
  · obtain hid | hdefined := hresolved id n hid
    · refine (hd.resolved id n hid).later hlater fun shape hshape hne => ?_
      obtain heq | ⟨head, heq, hhead⟩ := hbodies
      · rw [heq]
      · rw [heq, Array.count_push_of_ne]
        rintro rfl
        exact hne ((hhead n rfl).2 shape hshape)
    · exact hdefined

/-- A type that is registered leaves the aggregates in order. -/
theorem addStruct (hd : d.Ordered m) (shape : StructShape)
    (hnames : d.unit.types.structs.names.size = d.structCount) : (d.addStruct shape).Ordered m := by
  refine hd.of_later (hd.toConsistent.congr rfl ?_ hd.arrayNames hd.functionNames rfl fun n s hn => get?_push hn)
    (progress_addStruct shape).later ?_ fun _ _ h => .inl h
  · simp [Draft.addStruct, hnames]
  · by_cases hshape : shape.isResolved = true
    · refine .inr ⟨.struct d.structCount, by simp [Draft.addStruct, hshape], ?_⟩
      rintro n ⟨⟩
      refine ⟨⟨shape, Array.getElem?_push_size, by rintro rfl; cases hshape⟩, fun s hs => ?_⟩
      exact absurd (Array.getElem?_eq_some_iff.1 hs).1 (lt_irrefl _)
    · exact .inl (by simp [Draft.addStruct, hshape])

theorem setAggregate (hd : d.Ordered m) {state : AggregateState}
    (hcons : { d with aggregates := (id, state) :: d.aggregates }.Consistent)
    (hlater : Later d { d with aggregates := (id, state) :: d.aggregates }) (hstate : ∀ n, state ≠ .resolved n) :
    { d with aggregates := (id, state) :: d.aggregates }.Ordered m := by
  refine hd.of_later hcons hlater (.inl rfl) fun id' n h => .inl ?_
  by_cases hid : id' = id
  · subst hid
    have hself : state = .resolved n := by simpa using h
    exact absurd hself (hstate n)
  · exact (Draft.Consistent.lookup_cons_ne hid).symm.trans h

end Draft.Ordered

/-- A change leaves the aggregates in order. -/
theorem TypeStep.ordered (h : TypeStep m d d') (hd : d.Ordered m) : d'.Ordered m := by
  have hlater := h.progress.later
  cases h with
  | rest h =>
    refine hd.of_later (hd.toConsistent.same h.builtins h.types h.aggregates) hlater (.inl h.bodies) fun _ _ hid => ?_
    exact .inl (h.aggregates ▸ hid)
  | struct members hnames => exact hd.addStruct _ hnames
  | array shape hnames =>
    refine hd.of_later (hd.toConsistent.congr rfl hd.structNames ?_ hd.functionNames rfl fun _ _ h => h) hlater
      (.inr ⟨_, rfl, nofun⟩) fun _ _ h => .inl h
    simp [Draft.addArray, hnames]
  | function shape hnames =>
    refine hd.of_later (hd.toConsistent.congr rfl hd.structNames hd.arrayNames ?_ rfl fun _ _ h => h) hlater
      (.inl rfl) fun _ _ h => .inl h
    simp [Draft.addFunction, hnames]
  | @declare id state hnone hnames hnumber hstate =>
    have hadd := hd.addStruct .declared hnames
    have hget : (d.addStruct .declared).unit.types.structs.get? d.structCount = some .declared :=
      Array.getElem?_push_size
    refine hadd.setAggregate (hadd.toConsistent.setAggregate ?_ (fun _ => hnumber ▸ hget) fun id' s' _ hs' heq => ?_)
      ?_ hstate
    · rw [hnumber]
      exact (Array.getElem?_eq_some_iff.1 hget).1
    · exact absurd (hd.bounded id' s' hs') (by rw [heq, hnumber]; exact lt_irrefl _)
    · refine later_setAggregate fun old hold => ?_
      cases hnone.symm.trans hold
  | @start id n hid =>
    refine hd.setAggregate (hd.toConsistent.setAggregate (hd.bounded id (.declared n) hid)
      (fun _ => hd.unresolved id (.declared n) hid nofun) fun id' s' hne hs' heq => ?_) hlater nofun
    exact hne (hd.distinct id' id s' _ hs' hid heq)
  | @finish id n decl members hid hdeclared hdecl hmembers =>
    have hlt := (Array.getElem?_eq_some_iff.1 hdeclared).1
    have hfilled : ({ d.fillStruct n members with
        aggregates := (id, .resolved n) :: d.aggregates } : Draft).unit.types.structs.get? n = some (.resolved members) :=
      Array.getElem?_setIfInBounds_self_of_lt hlt
    refine hd.of_later ((hd.toConsistent.resolve hid members).same rfl rfl rfl) hlater ?_ fun id' n' h => ?_
    · refine .inr ⟨.struct n, rfl, ?_⟩
      rintro _ ⟨⟩
      exact ⟨⟨_, hfilled, nofun⟩, fun shape hshape => Option.some.inj (hshape.symm.trans hdeclared)⟩
    · by_cases hne : id' = id
      · subst hne
        obtain rfl : n = n' := by simpa using h
        refine .inr ⟨decl, members, hdecl, hfilled, ?_, ?_⟩
        · exact Lookup.Stable.mapM (fun ty _ => stable_typeOf? m ty) _ _ members hlater hmembers
        · have hnone : .struct n ∉ d.unit.bodies := fun hmem => by
            obtain ⟨shape, hshape, hne⟩ := hd.bodies n hmem
            exact hne (Option.some.inj (hshape.symm.trans hdeclared))
          change (d.unit.bodies.push (.struct n)).count (.struct n) = 1
          rw [Array.count_push_self, Array.count_eq_zero.2 hnone]
      · exact .inl ((Draft.Consistent.lookup_cons_ne hne).symm.trans h)

theorem TypeSteps.ordered (h : TypeSteps m d d') (hd : d.Ordered m) : d'.Ordered m := by
  induction h with
  | refl => exact hd
  | tail _ hstep ih => exact hstep.ordered ih

end CBackend
