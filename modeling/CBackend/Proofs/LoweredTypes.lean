import CBackend.Proofs.Bracketing.Functions
import CBackend.Proofs.Linkage.Modules
import CBackend.Proofs.Types.Depth

/-!
# Types are lowered once

The work on a module changes the types of its draft only by the small changes that `TypeStep` lists, so what these keep
holds at every moment of the work: a type that was lowered stays what it is, and every aggregate has a struct of its
own that gets its members once.

## Main definitions

* `Draft.Moment` : a draft that the work on a module may lead to, as far as types are concerned.
* `LoweredBy` : a type was lowered before some moment.
* `TypesInOrder` : what holds of the types at a moment.

## Main results

* `Turns.typeSteps` : the work on a module changes the types by such changes only.
* `types_lowered_once` : lowering a type ends, and over a whole run each type is lowered to one type.
-/

namespace CBackend

open IR
open C (CType)

variable {m : Module} {d d' : Draft} {options : Options}

/-! ### The work on a module -/

theorem typeSteps_of_rest (h : TypesKept d d') : TypeSteps m d d' :=
  .single (.rest h)

theorem Keeps.signature_steps {c : Convention} {result : Ty} {params : List Ty} :
    Keeps (TypeSteps m) (Lowering.signature m c result params) := by
  refine .signatureOf (fun _ => .lowerType_steps) fun f hf b => ?_
  obtain ⟨ty, -, rfl⟩ := List.mem_map.1 hf
  exact .lowerType_steps

theorem Requested.typeSteps {func : FuncId} {name : C.Name} (h : Requested m func d name d') : TypeSteps m d d' := by
  cases h with
  | known => exact .refl
  | library =>
    refine typeSteps_of_rest ?_
    unfold Draft.withFunction Draft.withHeader
    split <;> exact ⟨rfl, rfl, rfl, rfl⟩
  | declared hnew hf hintrinsic hheader hname hc hparams hsignature =>
    refine .trans (.trans (typeSteps_of_rest ?_) (Keeps.signature_steps _ _ _ hsignature))
      (typeSteps_of_rest ⟨rfl, rfl, rfl, rfl⟩)
    cases hname <;> exact ⟨rfl, rfl, rfl, rfl⟩

theorem Turn.typeSteps (h : Turn m d d') : TypeSteps m d d' := by
  cases h with
  | request h =>
    cases h with
    | body | value | header | statics => exact typeSteps_of_rest ⟨rfl, rfl, rfl, rfl⟩
    | type h => exact Keeps.lowerType_steps _ _ _ h
    | function _ h => exact (Ensures.declareFunction _ _ h).typeSteps
  | take | define => exact typeSteps_of_rest ⟨rfl, rfl, rfl, rfl⟩

/-- The work on a module changes the types by `TypeStep` only. -/
theorem Turns.typeSteps (h : Turns m d d') : TypeSteps m d d' := by
  induction h with
  | refl => exact .refl
  | tail _ hturn ih => exact ih.trans hturn.typeSteps

/-! ### Moments of a run -/

/-- The types of a draft that the work on a module may lead to, also while the members of aggregates are being
lowered. -/
def Draft.Moment (m : Module) (options : Options) (d : Draft) : Prop :=
  ∃ d₀, Draft.new options = .ok d₀ ∧ TypeSteps m d₀ d

/-- The type was lowered to `c` before the moment `d`, whether its definition was asked for or not. -/
def LoweredBy (m : Module) (options : Options) (d : Draft) (ty : Ty) (c : CType) : Prop :=
  ∃ depth define d₁ d₂, d₁.Moment m options ∧
    Lowering.ofTy m (Lowering.aggregateType m depth) ty define d₁ = .ok (c, d₂) ∧ TypeSteps m d₂ d

theorem Draft.Moment.ordered (h : d.Moment m options) : d.Ordered m := by
  obtain ⟨d₀, hnew, hsteps⟩ := h
  have hconsistent := (Draft.harmless_new options).2 d₀ hnew
  cases Draft.eq_registered hnew
  exact hsteps.ordered ⟨hconsistent, by simp [Draft.registered], by rintro _ _ ⟨⟩⟩

theorem LoweredBy.typeOf? {ty : Ty} {c : CType} (h : LoweredBy m options d ty c) :
    typeOf? m ty d = some c := by
  obtain ⟨depth, define, d₁, d₂, -, hlower, hsteps⟩ := h
  exact stable_typeOf? m ty d₂ d c hsteps.progress.later
    (Finds.ofTy (Finds.aggregateType m depth) ty define _ _ _ hlower).2

/-- What holds of the types at the moment `d` of a run. -/
structure TypesInOrder (m : Module) (options : Options) (d : Draft) : Prop where
  /-- Equal types are lowered to the same type. -/
  same : ∀ ty c c', LoweredBy m options d ty c → LoweredBy m options d ty c' → c = c'
  /-- It is the one that the draft has for them. -/
  found : ∀ ty c, LoweredBy m options d ty c → typeOf? m ty d = some c
  /-- An aggregate has a struct, and no other aggregate has the same. -/
  own : ∀ id c, LoweredBy m options d (.aggregate id) c →
    (∃ n, c = { head := .struct n }) ∧ ∀ id', LoweredBy m options d (.aggregate id') c → id' = id
  /-- An aggregate that is resolved was resolved once, with the types of its members in order. -/
  once : ∀ id n, d.aggregates.lookup id = some (.resolved n) → DefinedOnce m d id n
  /-- It is not defined before. -/
  before : ∀ id s, d.aggregates.lookup id = some s → (∀ n, s ≠ .resolved n) → .struct s.structNumber ∉ d.unit.bodies
  /-- The state of an aggregate only goes forward. -/
  forward : ∀ d' id s, TypeSteps m d d' → d.aggregates.lookup id = some s →
    ∃ s', d'.aggregates.lookup id = some s' ∧ s.Goes s'
  /-- Once resolved, it stays so. -/
  stays : ∀ d' id n, TypeSteps m d d' → d.aggregates.lookup id = some (.resolved n) →
    d'.aggregates.lookup id = some (.resolved n)

theorem Draft.Moment.typesInOrder (h : d.Moment m options) : TypesInOrder m options d := by
  have hd := h.ordered
  have hstruct {id : AggregateId} {c : CType} (hlowered : LoweredBy m options d (.aggregate id) c) :
      ∃ s, d.aggregates.lookup id = some s ∧ { head := .struct s.structNumber } = c :=
    Option.map_eq_some_iff.1 hlowered.typeOf?
  have hforward (d' : Draft) (id : AggregateId) (s : AggregateState) (hsteps : TypeSteps m d d') :
      d.aggregates.lookup id = some s → ∃ s', d'.aggregates.lookup id = some s' ∧ s.Goes s' :=
    hsteps.progress.states id s
  refine
    { same := fun ty c c' hc hc' => Option.some.inj (hc.typeOf?.symm.trans hc'.typeOf?)
      found := fun ty c hc => hc.typeOf?
      own := fun id c hc => ?_
      once := hd.resolved
      before := fun id s hs hne hmem => ?_
      forward := hforward
      stays := fun d' id n hsteps hid => ?_ }
  · obtain ⟨s, hs, rfl⟩ := hstruct hc
    refine ⟨⟨_, rfl⟩, fun id' hc' => ?_⟩
    obtain ⟨s', hs', heq⟩ := hstruct hc'
    simp only [CType.mk.injEq, C.Head.struct.injEq, and_true] at heq
    exact hd.distinct id' id s' s hs' hs heq
  · obtain ⟨shape, hshape, hne'⟩ := hd.bodies _ hmem
    exact hne' (Option.some.inj (hshape.symm.trans (hd.unresolved id s hs hne)))
  · obtain ⟨s', hs', hgoes⟩ := hforward d' id _ hsteps hid
    rw [hs', hgoes.eq_of_resolved]

/-- Lowering a type ends by itself: the bound on how many aggregates are entered inside each other is never reached,
and any deeper one gives the same. Over a whole run of the work on a module the types are in order. -/
theorem types_lowered_once (m : Module) (options : Options) :
    (∀ ty define d, Lowering.lowerType m ty define d ≠ .error .tooDeep) ∧
    (∀ depth, m.aggregates.size < depth → ∀ ty define,
      Lowering.ofTy m (Lowering.aggregateType m depth) ty define = Lowering.lowerType m ty define) ∧
    (∀ d, Draft.new options = .ok d → d.Moment m options) ∧
    (∀ d d', d.Moment m options → Turns m d d' → TypeSteps m d d' ∧ d'.Moment m options) ∧
    (∀ d, generateDraft m options = .ok d → d.Moment m options ∧ ∃ d₀, Draft.new options = .ok d₀ ∧ Turns m d₀ d) ∧
    ∀ d, d.Moment m options → TypesInOrder m options d := by
  refine ⟨lowerType_ne_tooDeep, fun _ => ofTy_eq_lowerType, fun d h => ⟨d, h, .refl⟩, ?_, ?_, fun d h => h.typesInOrder⟩
  · rintro d d' ⟨d₀, hnew, hsteps⟩ hturns
    exact ⟨hturns.typeSteps, d₀, hnew, hsteps.trans hturns.typeSteps⟩
  · intro d hrun
    obtain ⟨d₀, d₁, d₂, hstages, hturns, hturns', -⟩ := exists_stages hrun
    have hall : Turns m d₀ d := hturns.trans hturns'
    exact ⟨⟨d₀, hstages.new, hall.typeSteps⟩, d₀, hstages.new, hall⟩

/-- A record that refers to itself, two that refer to each other, one of them through an array, and two with the same
members. -/
def knottedRecords : Module where
  aggregates := #[{ name := "node", members := [.optional (.pointer (.aggregate ⟨0⟩) true), .builtin .i32] },
    { name := "left", members := [.array (.aggregate ⟨2⟩) 2] },
    { name := "right", members := [.slice (.aggregate ⟨1⟩) true, .aggregate ⟨0⟩] },
    { name := "meters", members := [.builtin .i32] },
    { name := "feet", members := [.builtin .i32] }]
  vars := #[{ name := "n", ty := .reference (.aggregate ⟨0⟩) true }, { name := "l", ty := .aggregate ⟨1⟩ },
    { name := "m", ty := .aggregate ⟨3⟩ }, { name := "f", ty := .aggregate ⟨4⟩ }]
  functions := #[{ name := "f", params := [⟨0⟩, ⟨1⟩, ⟨2⟩, ⟨3⟩], result := .void, body := some [] }]
  roots := #[⟨0⟩]

/-- In `knottedRecords` every record gets its own struct, and all are resolved in the end. -/
theorem types_lowered_once_knottedRecords : ∃ d, generateDraft knottedRecords {} = .ok d ∧
    TypesInOrder knottedRecords {} d ∧
    [0, 1, 2, 3, 4].map (fun n => d.aggregates.lookup ⟨n⟩) =
      [0, 1, 2, 4, 5].map fun n => some (AggregateState.resolved n) := by
  have hrun : ((generateDraft knottedRecords {}).toOption.any fun d =>
      [0, 1, 2, 3, 4].map (fun n => d.aggregates.lookup ⟨n⟩) ==
        [0, 1, 2, 4, 5].map fun n => some (AggregateState.resolved n)) = true := by
    decide +kernel
  cases h : generateDraft knottedRecords {} with
  | error e =>
    rw [h] at hrun
    cases hrun
  | ok d =>
    rw [h] at hrun
    obtain ⟨-, -, -, -, hmoment, horder⟩ := types_lowered_once knottedRecords {}
    exact ⟨d, rfl, horder d (hmoment d h).1, by simpa [Except.toOption] using hrun⟩

end CBackend
