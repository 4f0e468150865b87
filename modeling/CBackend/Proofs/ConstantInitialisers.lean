import CBackend.Proofs.Initialisers.Meaning

/-!
# Constants in function bodies and in global variables

A constant in a function body is a compound literal, and one that initialises a global variable is a plain list between
braces. Both are read by C's rules for initialisers, on the structs that the output defines.

The compound literal makes an object that holds the constant, as long as no array all of whose values are zero has
optionals in it that hold something: such an array is written as `{0}`, which leaves the flags of the optionals unset.
The plain list makes the same object as the compound literal, as long as the arrays that are written out have elements
without braces: an array is wrapped in a struct, and the braces of the first element are taken for those of the array
itself, so that the second element is one too many.

## Main definitions

* `C.Gives` : the object that an initialiser makes.
* `Draft.Between` : the drafts of the work on a module.

## Main results

* `body_constant_denotes` : the compound literal of a constant makes an object that holds the constant.
* `global_initialiser_agrees` : the plain list of a constant makes the same object as its compound literal.
-/

namespace CBackend

open IR
open C (CType Object Inits)

/-- The initialiser of an object of a type makes this contents, in one way only, and no item is left. -/
def C.Gives (t : C.TypeTable) (ty : CType) (e : C.Expr) (o : Object) : Prop :=
  Inits t [.object ty] [e] [o] [] ∧ ∀ os rest, Inits t [.object ty] [e] os rest → os = [o] ∧ rest = []

theorem C.Whole.gives {t : C.TypeTable} {ty : CType} {e : C.Expr} {o : Object} (h : C.Whole t (.object ty) e o) :
    C.Gives t ty e o := by
  refine ⟨h.inits, fun os rest h' => ?_⟩
  obtain ⟨rfl, rfl⟩ := h.inits.unique h'
  exact ⟨rfl, rfl⟩

/-! ### Drafts of the work on a module -/

/-- A draft between two pieces of the work on a module. -/
def Draft.Between (m : Module) (options : Options) (d : Draft) : Prop :=
  ∃ d₀, Draft.new options = .ok d₀ ∧ Turns m d₀ d

variable {m : Module} {options : Options} {d d' D : Draft}

theorem Turn.noneStarted (h : Turn m d d') : NoneStarted d d' := by
  cases h with
  | request h =>
    cases h with
    | body | value | header | statics => exact .of_eq rfl
    | type h => exact Keeps.lowerType_noneStarted _ _ _ h
    | function _ h => exact (Ensures.declareFunction _ _ h).noneStarted.1
  | take | define => exact .of_eq rfl

/-- No aggregate is in the middle of being lowered between two pieces of the work. -/
theorem Draft.Between.settled (h : d.Between m options) : d.Settled := by
  obtain ⟨d₀, hnew, hturns⟩ := h
  induction hturns with
  | refl =>
    cases Draft.eq_registered hnew
    rintro id n ⟨⟩
  | tail _ hturn ih => exact hturn.noneStarted.settled ih

/-- The definitions give every type its places. -/
theorem Draft.Between.laid (h : d.Between m options) : d.Laid m := by
  obtain ⟨d₀, hnew, hturns⟩ := h
  have hsteps := hturns.typeSteps
  refine ⟨Draft.Moment.ordered ⟨d₀, hnew, hsteps⟩, ?_⟩
  rw [hsteps.progress.later.builtins, Draft.eq_registered hnew]
  intro ty hty
  obtain ⟨n, -, rfl⟩ : ∃ n < Builtin.all.length, { head := .typedef n } = ty := by
    simpa [Draft.registered] using hty
  exact ⟨n, rfl⟩

/-! ### Runs -/

/-- The C type of a constant, after the constant has been lowered in both forms. -/
def typeOfLowered? (m : Module) (c : Const) (ty : Ty) : Option CType := do
  let d ← (Draft.new {}).toOption
  let (_, d₁) ← (Lowering.constantExpr m true c ty d).toOption
  let (_, d₂) ← (Lowering.constantExpr m false c ty d₁).toOption
  typeOf? m ty d₂

theorem exists_of_typeOfLowered? {c : Const} {ty : Ty} (h : (typeOfLowered? m c ty).isSome = true) :
    ∃ d body d₁ global d₂ cty, d.Between m {} ∧ Lowering.constantExpr m true c ty d = .ok (body, d₁) ∧
      Lowering.constantExpr m false c ty d₁ = .ok (global, d₂) ∧ Onward m d₁ d₂ ∧ typeOf? m ty d₂ = some cty := by
  obtain ⟨cty, h⟩ := Option.isSome_iff_exists.1 h
  obtain ⟨d, hnew, h⟩ := Option.bind_eq_some_iff.1 h
  obtain ⟨⟨body, d₁⟩, hbody, h⟩ := Option.bind_eq_some_iff.1 h
  obtain ⟨⟨global, d₂⟩, hglobal, h⟩ := Option.bind_eq_some_iff.1 h
  have hok {α : Type} {x : Except Fault α} {a : α} (hx : x.toOption = some a) : x = .ok a := by
    cases x with
    | error => cases hx
    | ok =>
      cases hx
      rfl
  exact ⟨d, body, d₁, global, d₂, cty, ⟨d, hok hnew, .refl⟩, hok hbody, hok hglobal,
    Keeps.constantExpr_onward c ty d₁ global d₂ (hok hglobal), h⟩

/-- A record of a flag and a number that may be missing. -/
def settingRecord : Aggregate :=
  { name := "setting", members := [.builtin .bool, .optional (.builtin .i32)] }

/-- A module with that record. -/
def settingModule : Module where
  aggregates := #[settingRecord]

/-! ### The two forms -/

/-- What a run of the compound literal leaves behind, and what the two forms are asked for. -/
theorem WellTyped.expects {c : Const} {ty : Ty} {e : C.Expr} (hc : WellTyped m c ty) (hd : d.Between m options)
    (hrun : Lowering.constantExpr m true c ty d = .ok (e, d')) (hD : Onward m d' D) :
    D.Laid m ∧ Defines m c ty D ∧ Expects m true D c ty := by
  have hkept : Onward m d d' := Keeps.constantExpr_onward c ty d e d' hrun
  have hdefines : Defines m c ty D := (hc.defines d hd.settled e d' hrun).onward hD
  exact ⟨hd.laid.onward (hkept.trans hD), hdefines, fun c' id hc' => (hdefines c' _ hc').aggregate id rfl, nofun⟩

/-- The compound literal of a constant makes an object that holds the constant, in every later draft. -/
theorem body_constant_denotes {c : Const} {ty : Ty} {e : C.Expr} {cty : CType} (hc : WellTyped m c ty)
    (hflags : FlagsWritten m c ty) (hd : d.Between m options)
    (hrun : Lowering.constantExpr m true c ty d = .ok (e, d')) (hD : Onward m d' D)
    (hcty : typeOf? m ty D = some cty) :
    ∃ o, C.Gives D.unit.types cty e o ∧ Represents m D c ty o := by
  obtain ⟨hlaid, hdefines, hexpects⟩ := hc.expects hd hrun hD
  obtain ⟨-, hwhole⟩ := hc.initialises d e d' hrun D hD hlaid hexpects
  exact ⟨objectOf m D c ty, (hwhole cty hcty).gives, hc.represents hdefines hflags⟩

/-- A number, an array of numbers that may be missing, a string and a record. -/
def mixedConstant : Const :=
  .tuple [.sint (-5), .array [.sint 0, .null, .sint 3], .str "on", .aggregate [.bool true, .null]]

/-- Its type. -/
def mixedTy : Ty :=
  .tuple [.builtin .i64, .array (.optional (.builtin .i32)) 3, .str, .aggregate ⟨0⟩]

theorem wellTyped_mixedConstant : WellTyped settingModule mixedConstant mixedTy := by
  have hrecord : WellTyped settingModule (.aggregate [.bool true, .null]) (.aggregate ⟨0⟩) := by
    refine .aggregate (by rfl : settingModule.aggregate? ⟨0⟩ = some settingRecord) rfl ?_
    simp only [settingRecord, List.zip_cons_cons, List.zip_nil_right, List.forall_mem_cons]
    exact ⟨.bool _, .null _, by simp⟩
  have harray : WellTyped settingModule (.array [.sint 0, .null, .sint 3]) (.array (.optional (.builtin .i32)) 3) := by
    refine .array rfl ?_
    simp only [List.forall_mem_cons]
    exact ⟨.present nofun (.sint _ rfl), .null _, .present nofun (.sint _ rfl), by simp⟩
  refine .tuple rfl ?_
  simp only [List.zip_cons_cons, List.zip_nil_right, List.forall_mem_cons]
  exact ⟨.sint _ rfl, harray, .str _, hrecord, by simp⟩

theorem flagsWritten_mixedConstant : FlagsWritten settingModule mixedConstant mixedTy := by
  intro c' elem size h hzero
  cases h with
  | component hx h =>
    simp only [List.zip_cons_cons, List.zip_nil_right, List.mem_cons, List.not_mem_nil, or_false] at hx
    rcases hx with rfl | rfl | rfl | rfl
    · cases h
    · cases h with
      | here => exact absurd hzero (by decide)
      | element _ hv h =>
        simp only [List.mem_cons, List.not_mem_nil, or_false] at hv
        rcases hv with rfl | rfl | rfl <;> cases h with
          | payload _ h => cases h
    · cases h
    · cases h with
      | member hdecl hx h =>
        obtain rfl : settingRecord = _ := Option.some.inj hdecl
        simp only [settingRecord, List.zip_cons_cons, List.zip_nil_right, List.mem_cons, List.not_mem_nil,
          or_false] at hx
        rcases hx with rfl | rfl
        · cases h
        · cases h with
          | payload _ h => cases h

theorem body_constant_denotes_mixedConstant : ∃ d d' D e cty o, d.Between settingModule {} ∧
    Lowering.constantExpr settingModule true mixedConstant mixedTy d = .ok (e, d') ∧ Onward settingModule d' D ∧
    C.Gives D.unit.types cty e o ∧ Represents settingModule D mixedConstant mixedTy o := by
  have hlowered : (typeOfLowered? settingModule mixedConstant mixedTy).isSome = true := by decide +kernel
  obtain ⟨d, e, d', -, D, cty, hd, hrun, -, hlater, hcty⟩ := exists_of_typeOfLowered? hlowered
  obtain ⟨o, ho⟩ := body_constant_denotes wellTyped_mixedConstant flagsWritten_mixedConstant hd hrun hlater hcty
  exact ⟨d, d', D, e, cty, o, hd, hrun, hlater, ho⟩

/-- The plain list of a constant makes the same object as its compound literal, in every draft that is later than both,
and no item of either is left. -/
theorem global_initialiser_agrees {c : Const} {ty : Ty} {body global : C.Expr} {cty : CType} {d₁ d₁' : Draft}
    (hc : WellTyped m c ty) (hplain : PlainArrays m c ty) (hd : d.Between m options)
    (hbody : Lowering.constantExpr m true c ty d = .ok (body, d'))
    (hglobal : Lowering.constantExpr m false c ty d₁ = .ok (global, d₁')) (hD : Onward m d' D)
    (hD₁ : Onward m d₁' D) (hcty : typeOf? m ty D = some cty) :
    ∃ o, C.Gives D.unit.types cty body o ∧ C.Gives D.unit.types cty global o := by
  obtain ⟨hlaid, -, hexpects⟩ := hc.expects hd hbody hD
  obtain ⟨-, hwhole⟩ := hc.initialises d body d' hbody D hD hlaid hexpects
  obtain ⟨-, hwhole₁⟩ := hc.initialises d₁ global d₁' hglobal D hD₁ hlaid ⟨hexpects.resolved, fun _ => hplain⟩
  exact ⟨objectOf m D c ty, (hwhole cty hcty).gives, (hwhole₁ cty hcty).gives⟩

/-- Numbers, a string and a record, without arrays of lists. -/
def flatConstant : Const :=
  .tuple [.sintArray [1, -2], .array [.uint 0, .uint 0], .str "on", .aggregate [.bool true, .sint 7]]

/-- Its type. -/
def flatTy : Ty :=
  .tuple [.array (.builtin .i32) 2, .array (.builtin .u8) 2, .str, .aggregate ⟨0⟩]

theorem wellTyped_flatConstant : WellTyped settingModule flatConstant flatTy := by
  have hrecord : WellTyped settingModule (.aggregate [.bool true, .sint 7]) (.aggregate ⟨0⟩) := by
    refine .aggregate (by rfl : settingModule.aggregate? ⟨0⟩ = some settingRecord) rfl ?_
    simp only [settingRecord, List.zip_cons_cons, List.zip_nil_right, List.forall_mem_cons]
    exact ⟨.bool _, .present nofun (.sint _ rfl), by simp⟩
  have harray : WellTyped settingModule (.array [.uint 0, .uint 0]) (.array (.builtin .u8) 2) := by
    refine .array rfl ?_
    simp only [List.forall_mem_cons]
    exact ⟨.uint _ rfl, .uint _ rfl, by simp⟩
  have hnumbers : WellTyped settingModule (.sintArray [1, -2]) (.array (.builtin .i32) 2) :=
    .sintArray (by rfl : Builtin.i32.isSigned = true) (.numbers 2)
  refine .tuple rfl ?_
  simp only [List.zip_cons_cons, List.zip_nil_right, List.forall_mem_cons]
  exact ⟨hnumbers, harray, .str _, hrecord, by simp⟩

theorem plainArrays_flatConstant : PlainArrays settingModule flatConstant flatTy := by
  intro c' elem size h
  cases h with
  | component hx h =>
    simp only [List.zip_cons_cons, List.zip_nil_right, List.mem_cons, List.not_mem_nil, or_false] at hx
    rcases hx with rfl | rfl | rfl | rfl
    · cases h with
      | here => exact .inr rfl
    · cases h with
      | here => exact .inr rfl
      | element _ hv h =>
        simp only [List.mem_cons, List.not_mem_nil, or_false] at hv
        rcases hv with rfl | rfl <;> cases h
    · cases h
    · cases h with
      | member hdecl hx h =>
        obtain rfl : settingRecord = _ := Option.some.inj hdecl
        simp only [settingRecord, List.zip_cons_cons, List.zip_nil_right, List.mem_cons, List.not_mem_nil,
          or_false] at hx
        rcases hx with rfl | rfl
        · cases h
        · cases h with
          | payload _ h => cases h

theorem global_initialiser_agrees_flatConstant : ∃ d body d' global D cty o, d.Between settingModule {} ∧
    Lowering.constantExpr settingModule true flatConstant flatTy d = .ok (body, d') ∧
    Lowering.constantExpr settingModule false flatConstant flatTy d' = .ok (global, D) ∧
    C.Gives D.unit.types cty body o ∧ C.Gives D.unit.types cty global o := by
  have hlowered : (typeOfLowered? settingModule flatConstant flatTy).isSome = true := by decide +kernel
  obtain ⟨d, body, d', global, D, cty, hd, hbody, hglobal, hlater, hcty⟩ := exists_of_typeOfLowered? hlowered
  obtain ⟨o, ho⟩ := global_initialiser_agrees wellTyped_flatConstant plainArrays_flatConstant hd hbody hglobal hlater
    (.refl D) hcty
  exact ⟨d, body, d', global, D, cty, o, hd, hbody, hglobal, ho⟩

end CBackend
