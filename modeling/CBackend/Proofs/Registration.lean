import CBackend.Draft.Types
import Mathlib.Data.List.Basic

/-!
# Registration of the scalars

A new draft has a typedef for each scalar of the source language, numbered in the order of registration. What a typedef
stands for depends on the target only, and tells the scalar: no two scalars want the same C type, whichever sizes
overlap. So registration fails on the first integer for which the target has no type, and on nothing else.

## Main definitions

* `Target.integer?` : the size and the signedness of a C integer type.
* `Target.aliased?` : the C type that stands for a scalar.
* `Draft.registered` : the draft with the typedefs of some scalars.

## Main results

* `Draft.new_eq` : a new draft, or the fault in its place.
* `builtins_registered_on_usable_targets` : when there is a new draft, and what its typedefs stand for.
-/

namespace CBackend

open IR
open C (CType)

/-! ### The types that scalars stand for -/

namespace Target

variable {t : Target} {kind kind' : Builtin} {size : Nat} {signed : Bool} {s : C.Scalar} {ty : CType}

/-- The size of a C integer type, and whether it is signed. -/
def integer? (t : Target) : C.Scalar → Option (Nat × Bool)
  | .signedChar => some (1, true)
  | .unsignedChar => some (1, false)
  | .short => some (t.short, true)
  | .unsignedShort => some (t.short, false)
  | .int => some (t.int, true)
  | .unsignedInt => some (t.int, false)
  | .long => some (t.long, true)
  | .unsignedLong => some (t.long, false)
  | .longLong => some (t.longLong, true)
  | .unsignedLongLong => some (t.longLong, false)
  | .void | .float | .double | .bool => none

/-- The C type that the typedef of a scalar stands for. That of `char` is another typedef. -/
def aliased? (t : Target) : Builtin → Option CType
  | .f32 => some (.ofScalar .float)
  | .f64 => some (.ofScalar .double)
  | .bool => some (.ofScalar .bool)
  | .char => some { head := .typedef (Builtin.all.idxOf .u32) }
  | kind => (t.integerOfSize? kind.size kind.isSigned).map .ofScalar

/-- The target has no type for an integer of the source language. -/
def Lacks (t : Target) (kind : Builtin) : Prop :=
  kind.isInteger = true ∧ kind.size ∉ [1, t.short, t.int, t.long, t.longLong]

/-- The scalar that a C type stands for. -/
def builtinOf? (t : Target) : CType → Option Builtin
  | ⟨.typedef _, _⟩ => some .char
  | ⟨.scalar .float, _⟩ => some .f32
  | ⟨.scalar .double, _⟩ => some .f64
  | ⟨.scalar .bool, _⟩ => some .bool
  | ⟨.scalar s, _⟩ => Builtin.all.find? fun k => k.isInteger && t.integer? s == some (k.size, k.isSigned)
  | _ => none

theorem integer?_of_integerOfSize? (h : t.integerOfSize? size signed = some s) :
    t.integer? s = some (size, signed) := by
  obtain ⟨c, hc, rfl⟩ := Option.map_eq_some_iff.1 h
  have hsize : c.1 = size := by simpa using List.find?_some hc
  have hmem := List.mem_of_find?_eq_some hc
  simp only [candidates, List.mem_cons, List.not_mem_nil, or_false] at hmem
  subst hsize
  obtain rfl | rfl | rfl | rfl | rfl := hmem <;> cases signed <;> rfl

theorem integerOfSize?_eq_none_iff :
    t.integerOfSize? size signed = none ↔ size ∉ [1, t.short, t.int, t.long, t.longLong] := by
  simp [integerOfSize?, candidates, @eq_comm _ size]

theorem aliased?_eq_none_iff : t.aliased? kind = none ↔ t.Lacks kind := by
  cases kind <;> simp [aliased?, Lacks, Builtin.isInteger, Builtin.isSigned, Builtin.isUnsigned, Builtin.size,
    integerOfSize?_eq_none_iff]

/-- An integer stands for a C type of its size and its signedness. -/
theorem integer?_of_aliased? (h : t.aliased? kind = some ty) (hkind : kind.isInteger = true) :
    ∃ s, ty = .ofScalar s ∧ t.integer? s = some (kind.size, kind.isSigned) := by
  have hinteger : t.aliased? kind = (t.integerOfSize? kind.size kind.isSigned).map .ofScalar := by
    cases kind <;> first | rfl | cases hkind
  obtain ⟨s, hs, rfl⟩ := Option.map_eq_some_iff.1 (hinteger.symm.trans h)
  exact ⟨s, rfl, integer?_of_integerOfSize? hs⟩

theorem builtinOf?_of_aliased? (h : t.aliased? kind = some ty) : t.builtinOf? ty = some kind := by
  by_cases hkind : kind.isInteger = true
  · obtain ⟨s, rfl, hs⟩ := integer?_of_aliased? h hkind
    have hfind : t.builtinOf? (.ofScalar s) =
        Builtin.all.find? fun k => k.isInteger && t.integer? s == some (k.size, k.isSigned) := by
      cases s <;> first | rfl | cases hs
    rw [hfind, hs]
    cases kind <;> first | decide | cases hkind
  · cases kind <;> first | exact absurd rfl hkind | (cases h; rfl)

/-- Different scalars stand for different C types. -/
theorem aliased?_inj (h : t.aliased? kind = some ty) (h' : t.aliased? kind' = some ty) : kind = kind' :=
  Option.some.inj ((builtinOf?_of_aliased? h).symm.trans (builtinOf?_of_aliased? h'))

/-- A target that passes the check has pointers of four or eight bytes. -/
theorem pointer_of_validate (h : t.validate = .ok ()) : t.pointer = 4 ∨ t.pointer = 8 := by
  unfold validate at h
  split at h
  · cases h
  split at h
  · cases h
  split at h
  · simp_all
  · cases h

end Target

/-! ### New drafts -/

namespace Draft

variable {options : Options} {done rest : List Builtin} {kind : Builtin} {d : Draft}

/-- The draft with the typedefs of the given scalars and nothing else. -/
def registered (options : Options) (kinds : List Builtin) : Draft where
  options := options
  unit := {
    types := {
      typedefs := {
        shapes := (kinds.map fun kind => (options.target.aliased? kind).getD .void).toArray
        names := (kinds.map fun kind => "t_" ++ kind.name).toArray } }
    typedefs := ((List.range kinds.length).map .typedef).toArray }
  builtins := ((List.range kinds.length).map fun n => { head := .typedef n }).toArray

theorem aliasedType_registered (hchar : kind = .char → Builtin.all.idxOf .u32 < done.length) :
    (registered options done).aliasedType kind =
      (options.target.aliased? kind).elim (.error (.noIntegerOfSize kind)) .ok := by
  cases kind with
  | f32 | f64 | bool => rfl
  | char =>
    have hfound : (registered options done).builtin? .u32 = some { head := .typedef (Builtin.all.idxOf .u32) } := by
      simp [registered, builtin?, List.getElem?_range (hchar rfl)]
    rw [aliasedType, hfound]
    rfl
  | i8 | i16 | i32 | i64 | u8 | u16 | u32 | u64 =>
    unfold aliasedType Target.aliased?
    dsimp only [registered]
    split <;> simp_all

/-- The next scalar gets the next typedef. -/
theorem registerBuiltin_registered (hdone : ∀ k ∈ done, ¬ options.target.Lacks k) (hkind : kind ∉ done)
    (hchar : kind = .char → Builtin.all.idxOf .u32 < done.length) :
    (registered options done).registerBuiltin kind =
      (options.target.aliased? kind).elim (.error (.noIntegerOfSize kind)) fun _ =>
        .ok (registered options (done ++ [kind])) := by
  unfold registerBuiltin
  rw [aliasedType_registered hchar]
  cases halias : options.target.aliased? kind with
  | none => rfl
  | some ty =>
    have hnew : ty ∉ (registered options done).unit.types.typedefs.shapes := by
      simp only [registered, List.mem_toArray, List.mem_map, not_exists, not_and]
      intro k hk heq
      obtain ⟨ty', hty'⟩ := Option.ne_none_iff_exists'.1 (mt Target.aliased?_eq_none_iff.1 (hdone k hk))
      rw [hty', Option.getD_some] at heq
      exact hkind (Target.aliased?_inj halias (heq ▸ hty') ▸ hk)
    have hnone : (registered options done).unit.types.typedefs.shapes.findIdx? (· == ty) = none :=
      Array.findIdx?_eq_none_iff.2 fun x hx => beq_eq_false_iff_ne.2 fun heq => hnew (heq ▸ hx)
    simp only [Option.elim, Bind.bind, Except.bind, C.TypeTable.internTypedef, C.Shapes.intern, hnone, C.Shapes.add]
    simp [registered, C.TypeTable.setName, C.Shapes.setName, halias, List.range_succ, Bind.bind, Except.bind,
      Pure.pure, Except.pure]

/-- The scalars are registered one after the other. -/
theorem foldlM_registered (hall : done ++ rest = Builtin.all) (hdone : ∀ k ∈ done, ¬ options.target.Lacks k) :
    rest.foldlM registerBuiltin (registered options done) =
      (rest.find? fun k => (options.target.aliased? k).isNone).elim (.ok (registered options Builtin.all)) fun k =>
        .error (.noIntegerOfSize k) := by
  induction rest generalizing done with
  | nil =>
    rw [List.append_nil] at hall
    exact congrArg (fun kinds => Except.ok (registered options kinds)) hall
  | cons kind rest ih =>
    have hnodup : (done ++ kind :: rest).Nodup := hall ▸ (by decide)
    have hkind : kind ∉ done := fun hmem =>
      (List.nodup_append.1 hnodup).2.2 kind hmem kind List.mem_cons_self rfl
    have hchar : kind = .char → Builtin.all.idxOf .u32 < done.length := by
      rintro rfl
      have hidx : Builtin.all.idxOf .char = done.length := by
        rw [← hall, List.idxOf_append_of_notMem hkind, List.idxOf_cons_self, Nat.add_zero]
      rw [← hidx]
      decide
    rw [List.foldlM_cons, registerBuiltin_registered hdone hkind hchar, List.find?_cons]
    cases halias : options.target.aliased? kind with
    | none => rfl
    | some ty =>
      refine ih (by rw [List.append_assoc]; exact hall) fun k hk hlacks => ?_
      obtain hk | hk := List.mem_append.1 hk
      · exact hdone k hk hlacks
      · cases List.mem_singleton.1 hk
        rw [Target.aliased?_eq_none_iff.2 hlacks] at halias
        cases halias

theorem new_eq (options : Options) : Draft.new options =
    (Builtin.all.find? fun k => (options.target.aliased? k).isNone).elim (.ok (registered options Builtin.all)) fun k =>
      .error (.noIntegerOfSize k) :=
  foldlM_registered (List.nil_append _) (by simp)

theorem new_eq_ok_iff : Draft.new options = .ok d ↔
    (∀ kind, ¬ options.target.Lacks kind) ∧ d = registered options Builtin.all := by
  have hnone : (Builtin.all.find? fun k => (options.target.aliased? k).isNone) = none ↔
      ∀ kind, ¬ options.target.Lacks kind := by
    have hmem (kind : Builtin) : kind ∈ Builtin.all := by cases kind <;> decide
    simp [List.find?_eq_none, hmem, ← Target.aliased?_eq_none_iff]
  rw [new_eq, ← hnone]
  cases Builtin.all.find? fun k => (options.target.aliased? k).isNone with
  | none => simp [eq_comm]
  | some => simp

theorem eq_registered (h : Draft.new options = .ok d) : d = registered options Builtin.all :=
  (new_eq_ok_iff.1 h).2

theorem builtin?_registered : (registered options Builtin.all).builtin? kind =
    some { head := .typedef (Builtin.all.idxOf kind) } := by
  cases kind <;> rfl

end Draft

/-- A registered scalar has its C type. -/
theorem Emit.builtin_eq {d : Draft} {kind : Builtin} {ty : CType} (h : d.builtin? kind = some ty) :
    Emit.builtin kind d = .ok (ty, d) := by
  have hget {f : Draft → Emit CType} {r : Except Fault (CType × Draft)} (h : f d d = r) : (get >>= f : Emit CType) d = r := h
  refine hget ?_
  rw [h]
  rfl

/-- There is a new draft when the target has types of two, four and eight bytes. Then the typedef of each integer
stands for a C type of its size and signedness, the scalars have twelve different C types, none of them `void`, and
sizes have the unsigned integer of a pointer's size. Otherwise the fault names the first integer without a type. -/
theorem builtins_registered_on_usable_targets (options : Options) :
    ((∃ d, Draft.new options = .ok d) ↔ ∀ size ∈ [2, 4, 8],
      size ∈ [options.target.short, options.target.int, options.target.long, options.target.longLong]) ∧
    (∀ d, Draft.new options = .ok d →
      (∀ kind : Builtin, kind.isInteger = true → ∃ n s, d.builtin? kind = some { head := .typedef n } ∧
        d.unit.types.typedefs.name? n = some ("t_" ++ kind.name) ∧
        d.unit.types.typedefs.get? n = some (.ofScalar s) ∧
        options.target.integer? s = some (kind.size, kind.isSigned)) ∧
      (Builtin.all.map d.builtin?).Nodup ∧ (∀ kind, ∃ ty, d.builtin? kind = some ty ∧ ty ≠ .void) ∧
      (options.target.validate = .ok () → ∃ kind ty, kind.isUnsigned = true ∧ kind.size = options.target.pointer ∧
        d.builtin? kind = some ty ∧ Emit.sizeType d = .ok (ty, d))) ∧
    ∀ e, Draft.new options = .error e → ∃ before kind after, Builtin.all = before ++ kind :: after ∧
      (∀ k ∈ before, ¬ options.target.Lacks k) ∧ options.target.Lacks kind ∧ e = .noIntegerOfSize kind ∧
      e.message = s!"target has no C integer type of {kind.size} bytes for `{kind.name}`" := by
  refine ⟨?_, fun d hd => ?_, fun e he => ?_⟩
  · have hlacks : (∀ kind, ¬ options.target.Lacks kind) ↔ ∀ kind ∈ Builtin.all, ¬ options.target.Lacks kind :=
      ⟨fun h kind _ => h kind, fun h kind => h kind (by cases kind <;> decide)⟩
    simp only [Draft.new_eq_ok_iff, exists_and_left, exists_eq, and_true, hlacks]
    simp [Builtin.all, Target.Lacks, Builtin.isInteger, Builtin.isSigned, Builtin.isUnsigned, Builtin.size]
    omega
  · obtain ⟨hlacks, rfl⟩ := Draft.new_eq_ok_iff.1 hd
    refine ⟨fun kind hkind => ?_, ?_, fun kind => ⟨_, Draft.builtin?_registered, nofun⟩, fun hvalid => ?_⟩
    · obtain ⟨ty, hty⟩ := Option.ne_none_iff_exists'.1 (mt Target.aliased?_eq_none_iff.1 (hlacks kind))
      obtain ⟨s, rfl, hs⟩ := Target.integer?_of_aliased? hty hkind
      have hget : Builtin.all[Builtin.all.idxOf kind]? = some kind := by cases kind <;> rfl
      refine ⟨_, s, Draft.builtin?_registered, ?_, ?_, hs⟩
      · simp [Draft.registered, C.Shapes.name?, hget]
      · simp [Draft.registered, C.Shapes.get?, hget, hty]
    · have hbuiltin : (Draft.registered options Builtin.all).builtin? =
          fun kind => some { head := .typedef (Builtin.all.idxOf kind) } := funext fun _ => Draft.builtin?_registered
      rw [hbuiltin]
      decide
    · have hsize : Emit.sizeType (Draft.registered options Builtin.all) =
          Emit.builtin (if options.target.pointer = 8 then .u64 else .u32) (Draft.registered options Builtin.all) := rfl
      obtain hfour | height := Target.pointer_of_validate hvalid
      · refine ⟨.u32, _, rfl, hfour.symm, Draft.builtin?_registered, ?_⟩
        rw [hsize, if_neg (by rw [hfour]; decide), Emit.builtin_eq Draft.builtin?_registered]
      · refine ⟨.u64, _, rfl, height.symm, Draft.builtin?_registered, ?_⟩
        rw [hsize, if_pos height, Emit.builtin_eq Draft.builtin?_registered]
  · rw [Draft.new_eq] at he
    cases hfind : Builtin.all.find? fun k => (options.target.aliased? k).isNone with
    | none =>
      rw [hfind] at he
      cases he
    | some kind =>
      rw [hfind] at he
      cases he
      obtain ⟨hkind, before, after, hall, hbefore⟩ := List.find?_eq_some_iff_append.1 hfind
      refine ⟨before, kind, after, hall, fun k hk hlacks => ?_, ?_, rfl, rfl⟩
      · simpa [Target.aliased?_eq_none_iff.2 hlacks] using hbefore k hk
      · exact Target.aliased?_eq_none_iff.1 (Option.isNone_iff_eq_none.1 hkind)

end CBackend
