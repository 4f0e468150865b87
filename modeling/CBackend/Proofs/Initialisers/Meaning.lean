import CBackend.Proofs.Initialisers.Forms

/-!
# What an object holds

When an object of the output holds a constant: its scalars have the numbers of the constant at their places, its
pointers lead to the functions and the bytes of the constant, and the flags of its optionals tell which of them hold
something. The object that the initialiser of a constant makes holds the constant, unless an array that is not written
out has optionals in it that hold something: their flags would then be zero too.
-/

namespace CBackend

open IR
open C (Atom Object)

/-- The contents of the numbers of an array, row by row. -/
def rowsOf : Ty → Object → List Object
  | .array elem size, o => (List.range size).flatMap fun i => rowsOf elem ((o.part 0).part i)
  | _, o => [o]

/-- An object holds a constant of a type. An empty string may be any two equal pointers, and floating-point numbers are
taken as they are written. -/
inductive Represents (m : Module) (D : Draft) : Const → Ty → Object → Prop
  | nullFlag {payload : Ty} {o : Object} (hlike : (Ty.optional payload).isOptionalPointerLike = false)
      (hflag : (o.part 1).atom? = some (.int 0)) : Represents m D .null (.optional payload) o
  | nullAddress {payload : Ty} {o : Object} (hlike : (Ty.optional payload).isOptionalPointerLike = true)
      (ho : o.atom? = some (.int 0)) : Represents m D .null (.optional payload) o
  | presentFlag {c : Const} {payload : Ty} {o : Object} (hc : c ≠ .null)
      (hlike : (Ty.optional payload).isOptionalPointerLike = false) (hflag : (o.part 1).atom? = some (.int 1))
      (h : Represents m D c payload (o.part 0)) : Represents m D c (.optional payload) o
  | presentAddress {c : Const} {payload : Ty} {o : Object} (hc : c ≠ .null)
      (hlike : (Ty.optional payload).isOptionalPointerLike = true) (h : Represents m D c payload o) :
      Represents m D c (.optional payload) o
  | sint {v : Int64} {kind : Builtin} {o : Object} (ho : o.atom? = some (.int v.toInt)) :
      Represents m D (.sint v) (.builtin kind) o
  | uint {v : UInt64} {kind : Builtin} {o : Object} (ho : o.atom? = some (.int v.toNat)) :
      Represents m D (.uint v) (.builtin kind) o
  | float32 {bits : UInt32} {o : Object}
      (ho : o.atom? = some (.float (C.Literal.float32 bits).spelling) ∨ bits = 0 ∧ o.atom? = some (.int 0)) :
      Represents m D (.float32 bits) (.builtin .f32) o
  | float64 {bits : UInt64} {o : Object}
      (ho : o.atom? = some (.float (C.Literal.float64 bits).spelling) ∨ bits = 0 ∧ o.atom? = some (.int 0)) :
      Represents m D (.float64 bits) (.builtin .f64) o
  | char {c : Char} {o : Object} (ho : o.atom? = some (.int c.toNat)) : Represents m D (.char c) (.builtin .char) o
  | bool {b : Bool} {o : Object} (ho : o.atom? = some (.int b.toNat)) : Represents m D (.bool b) (.builtin .bool) o
  | void {o : Object} : Represents m D .void .void o
  | enum {v : UInt64} {underlying : Builtin} {o : Object} (ho : o.atom? = some (.int (enumInt v underlying))) :
      Represents m D (.enum v) (.enum underlying) o
  | function {func : FuncId} {result : Ty} {params : List Ty} {name : C.Name} {o : Object}
      (hname : D.functions.lookup func = some name) (ho : o.atom? = some (.address name 0)) :
      Represents m D (.function func) (.function result params) o
  | str {s : String} {n : Nat} {o : Object} (hn : D.strings[n]? = some s)
      (hfirst : (o.part 0).atom? = some (.address (.string n) 0))
      (hlast : (o.part 1).atom? = some (.address (.string n) s.utf8ByteSize)) : Represents m D (.str s) .str o
  | emptyStr {s : String} {o : Object} (hs : s.isEmpty = true) (ho : (o.part 0).atom? = (o.part 1).atom?) :
      Represents m D (.str s) .str o
  | array {vs : List Const} {elem : Ty} {size : Nat} {o : Object}
      (h : ∀ i v, vs[i]? = some v → Represents m D v elem ((o.part 0).part i)) :
      Represents m D (.array vs) (.array elem size) o
  | sintArray {vs : List Int64} {ty : Ty} {o : Object}
      (h : List.Forall₂ (fun v x => Object.atom? x = some (.int v.toInt)) vs (rowsOf ty o)) :
      Represents m D (.sintArray vs) ty o
  | uintArray {vs : List UInt64} {ty : Ty} {o : Object}
      (h : List.Forall₂ (fun v x => Object.atom? x = some (.int v.toNat)) vs (rowsOf ty o)) :
      Represents m D (.uintArray vs) ty o
  | float32Array {vs : List UInt32} {ty : Ty} {o : Object}
      (h : List.Forall₂ (fun bits x => Object.atom? x = some (.float (C.Literal.float32 bits).spelling) ∨
        bits = 0 ∧ Object.atom? x = some (.int 0)) vs (rowsOf ty o)) : Represents m D (.float32Array vs) ty o
  | float64Array {vs : List UInt64} {ty : Ty} {o : Object}
      (h : List.Forall₂ (fun bits x => Object.atom? x = some (.float (C.Literal.float64 bits).spelling) ∨
        bits = 0 ∧ Object.atom? x = some (.int 0)) vs (rowsOf ty o)) : Represents m D (.float64Array vs) ty o
  | tuple {vs : List Const} {elems : List Ty} {o : Object}
      (h : ∀ i x, (vs.zip elems)[i]? = some x → Represents m D x.1 x.2 (o.part i)) :
      Represents m D (.tuple vs) (.tuple elems) o
  | aggregate {vs : List Const} {id : AggregateId} {decl : Aggregate} {o : Object}
      (hdecl : m.aggregate? id = some decl)
      (h : ∀ i x, (vs.zip decl.members)[i]? = some x → Represents m D x.1 x.2 (o.part i)) :
      Represents m D (.aggregate vs) (.aggregate id) o

/-- Optionals that hold something store no flag. -/
def NoFlags (m : Module) (c : Const) (ty : Ty) : Prop :=
  ∀ c' payload, Occurs m true c ty c' (.optional payload) →
    c' = .null ∨ (Ty.optional payload).isOptionalPointerLike = true

/-- Arrays all of whose values are zero have no optionals in them that hold something and store a flag. -/
def FlagsWritten (m : Module) (c : Const) (ty : Ty) : Prop :=
  ∀ c' elem size, Occurs m true c ty c' (.array elem size) → c'.isZero = true → NoFlags m c' (.array elem size)

variable {m : Module} {D : Draft} {c v : Const} {ty : Ty} {kind : Builtin}

theorem NoFlags.inside {vty : Ty} (h : NoFlags m c ty)
    (hinside : ∀ c' ty', Occurs m true v vty c' ty' → Occurs m true c ty c' ty') : NoFlags m v vty :=
  fun c' payload hc' => h c' payload (hinside c' _ hc')

theorem FlagsWritten.inside {vty : Ty} (h : FlagsWritten m c ty)
    (hinside : ∀ c' ty', Occurs m true v vty c' ty' → Occurs m true c ty c' ty') : FlagsWritten m v vty :=
  fun c' elem size hc' => h c' elem size (hinside c' _ hc')

/-! ### Rows -/

/-- Going through the places of an object is going through their contents. -/
theorem flatMap_range_part (os : List Object) (f : Object → List Object) :
    ((List.range os.length).flatMap fun i => f ((Object.parts os).part i)) = os.flatMap f := by
  have hmap : (List.range os.length).map (Object.parts os).part = os := by
    refine List.ext_getElem (by simp) fun i hi hi' => ?_
    rw [List.getElem_map, List.getElem_range]
    exact Object.part_parts (List.getElem?_eq_getElem hi')
  rw [← List.flatMap_map, hmap]

theorem Rows.rowsOf_zero {n : Nat} (h : Rows kind ty n) :
    rowsOf ty .zero = List.replicate n .zero := by
  have hflat (k count : Nat) : ((List.range k).flatMap fun _ => List.replicate count Object.zero) =
      List.replicate (k * count) .zero := by
    induction k with
    | zero => simp
    | succ k ih => rw [List.range_succ, List.flatMap_append, ih, Nat.succ_mul, List.replicate_add]; simp
  induction h with
  | numbers size =>
    have hone := hflat size 1
    rw [Nat.mul_one] at hone
    exact hone
  | @rows elem inner count size _ ih =>
    rw [rowsOf]
    simp only [Object.part_zero, ih]
    exact hflat size count

theorem Rows.rowsOf_rowsObject {n : Nat} (h : Rows kind ty n) {vs : List Atom} (hlength : vs.length = n) :
    rowsOf ty (rowsObject ty vs) = vs.map .leaf := by
  induction h generalizing vs with
  | numbers size =>
    by_cases hvs : vs = []
    · subst hvs
      subst hlength
      rfl
    · have hobject : rowsObject (.array (.builtin kind) size) vs = .parts [.parts (vs.map .leaf)] := by
        simp [rowsObject, hvs]
      have hall := flatMap_range_part (vs.map .leaf) fun o => [o]
      rw [List.length_map, hlength] at hall
      rw [hobject, rowsOf]
      refine hall.trans ?_
      simp
  | @rows elem inner count size hinner ih =>
    by_cases hvs : vs = []
    · subst hvs
      have hzero := (Rows.rows size hinner).rowsOf_zero
      rw [← hlength] at hzero
      simpa [rowsObject] using hzero
    · obtain ⟨hcount, hpieces, hflatten⟩ := chunks_spec hlength hvs
      rw [rowsObject, if_neg (by simpa using hvs), rowsOf]
      have hall := flatMap_range_part
        ((Lowering.chunks (max (vs.length / max size 1) 1) vs).map (rowsObject (.array elem inner)))
        (rowsOf (.array elem inner))
      rw [List.length_map, hcount, List.flatMap_map] at hall
      refine hall.trans ?_
      conv_rhs => rw [← hflatten, List.map_flatten]
      rw [List.flatMap_def]
      refine congrArg List.flatten (List.map_congr_left fun c hc => ?_)
      exact ih (hpieces c hc)

/-- Numbers that are all zero. -/
theorem Rows.forall₂_rowsOf_zero {α : Type} {vs : List α} {P : α → Object → Prop} (h : Rows kind ty vs.length)
    (hzero : ∀ v ∈ vs, P v .zero) : List.Forall₂ P vs (rowsOf ty .zero) := by
  rw [h.rowsOf_zero, ← List.map_const', List.forall₂_map_right_iff, List.forall₂_same]
  exact hzero

/-- Numbers that are written out, or that are all zero. -/
theorem Rows.forall₂_rowsOf {α : Type} {vs : List α} {a : α → Atom} {isZero : Bool} {P : α → Object → Prop}
    (h : Rows kind ty vs.length) (hzero : isZero = true → ∀ v ∈ vs, P v .zero) (hleaf : ∀ v ∈ vs, P v (.leaf (a v))) :
    List.Forall₂ P vs (rowsOf ty (numbersObject isZero (vs.map a) ty)) := by
  cases isZero with
  | true =>
    rw [numbersObject, if_pos rfl]
    exact h.forall₂_rowsOf_zero (hzero rfl)
  | false =>
    rw [numbersObject, if_neg Bool.false_ne_true, h.rowsOf_rowsObject (List.length_map _), List.map_map,
      List.forall₂_map_right_iff, List.forall₂_same]
    exact hleaf

/-! ### Zeros -/

theorem isZero_of_mem {vs : List Const} (h : Const.allZero vs = true) (hv : v ∈ vs) : v.isZero = true := by
  induction vs with
  | nil => cases hv
  | cons w vs ih =>
    rw [Const.allZero, Bool.and_eq_true] at h
    obtain rfl | hv := List.mem_cons.1 hv
    · exact h.1
    · exact ih h.2 hv

theorem atom?_zero_of_sintArray {vs : List Int64} (h : Const.isZero (.sintArray vs) = true) (v : Int64) (hv : v ∈ vs) :
    Object.zero.atom? = some (.int v.toInt) := by
  rw [eq_of_beq (List.all_eq_true.1 h v hv)]
  rfl

theorem atom?_zero_of_uintArray {vs : List UInt64} (h : Const.isZero (.uintArray vs) = true) (v : UInt64)
    (hv : v ∈ vs) : Object.zero.atom? = some (.int v.toNat) := by
  rw [eq_of_beq (List.all_eq_true.1 h v hv)]
  rfl

/-- Zeros hold a constant that is zero, as long as no flag has to be set. -/
theorem WellTyped.represents_zero (h : WellTyped m c ty) (hzero : c.isZero = true) (hflags : NoFlags m c ty) :
    Represents m D c ty .zero := by
  induction h with
  | null payload =>
    by_cases hlike : (Ty.optional payload).isOptionalPointerLike = true
    · exact .nullAddress hlike rfl
    · exact .nullFlag (Bool.eq_false_of_not_eq_true hlike) rfl
  | @present c payload hc _ ih =>
    obtain h | hlike := hflags c payload .here
    · exact absurd h hc
    · exact .presentAddress hc hlike (ih hzero (hflags.inside fun c' ty' => .payload hc))
  | sint v =>
    refine .sint ?_
    rw [eq_of_beq hzero]
    rfl
  | uint v =>
    refine .uint ?_
    rw [eq_of_beq hzero]
    rfl
  | float32 bits => exact .float32 (.inr ⟨eq_of_beq hzero, rfl⟩)
  | float64 bits => exact .float64 (.inr ⟨eq_of_beq hzero, rfl⟩)
  | char c =>
    have hc : c.toNat = 0 := eq_of_beq hzero
    exact .char (by rw [hc]; rfl)
  | str s => exact .emptyStr hzero rfl
  | bool b =>
    cases b with
    | false => exact .bool rfl
    | true => cases hzero
  | void => exact .void
  | enum v underlying =>
    have hv : v = 0 := eq_of_beq hzero
    subst hv
    refine .enum ?_
    cases underlying <;> rfl
  | function => cases hzero
  | array _ _ ih =>
    refine .array fun i v hv => ?_
    have hmem := List.mem_of_getElem? hv
    exact ih v hmem (isZero_of_mem hzero hmem) (hflags.inside fun c' ty' => .element (.inl rfl) hmem)
  | sintArray _ hrows => exact .sintArray (hrows.forall₂_rowsOf_zero (atom?_zero_of_sintArray hzero))
  | uintArray _ hrows => exact .uintArray (hrows.forall₂_rowsOf_zero (atom?_zero_of_uintArray hzero))
  | float32Array hrows =>
    exact .float32Array (hrows.forall₂_rowsOf_zero fun v hv => .inr ⟨eq_of_beq (List.all_eq_true.1 hzero v hv), rfl⟩)
  | float64Array hrows =>
    exact .float64Array (hrows.forall₂_rowsOf_zero fun v hv => .inr ⟨eq_of_beq (List.all_eq_true.1 hzero v hv), rfl⟩)
  | tuple _ _ ih =>
    refine .tuple fun i x hx => ?_
    have hmem := List.mem_of_getElem? hx
    exact ih x hmem (isZero_of_mem hzero (List.of_mem_zip hmem).1) (hflags.inside fun c' ty' => .component hmem)
  | aggregate hdecl _ _ ih =>
    refine .aggregate hdecl fun i x hx => ?_
    have hmem := List.mem_of_getElem? hx
    exact ih x hmem (isZero_of_mem hzero (List.of_mem_zip hmem).1) (hflags.inside fun c' ty' => .member hdecl hmem)

/-! ### Objects -/

/-- The object of a constant holds the constant. -/
theorem WellTyped.represents (h : WellTyped m c ty) (hD : Defines m c ty D) (hflags : FlagsWritten m c ty) :
    Represents m D c ty (objectOf m D c ty) := by
  induction h with
  | null payload =>
    rw [objectOf]
    by_cases hlike : (Ty.optional payload).isOptionalPointerLike = true
    · rw [if_pos hlike]
      exact .nullAddress hlike rfl
    · rw [if_neg hlike]
      exact .nullFlag (Bool.eq_false_of_not_eq_true hlike) rfl
  | @present c payload hc _ ih =>
    have hpayload := ih (fun c' ty' hc' => hD c' ty' (.payload hc hc')) (hflags.inside fun c' ty' => .payload hc)
    rw [objectOf_optional hc]
    by_cases hlike : (Ty.optional payload).isOptionalPointerLike = true
    · rw [if_pos hlike]
      exact .presentAddress hc hlike hpayload
    · rw [if_neg hlike]
      exact .presentFlag hc (Bool.eq_false_of_not_eq_true hlike) rfl hpayload
  | sint => exact .sint rfl
  | uint => exact .uint rfl
  | float32 => exact .float32 (.inl rfl)
  | float64 => exact .float64 (.inl rfl)
  | char => exact .char rfl
  | bool => exact .bool rfl
  | void => exact .void
  | enum => exact .enum rfl
  | function func result params =>
    obtain ⟨name, hname⟩ := (hD _ _ .here).function func rfl
    refine .function hname ?_
    change some (functionAtom D func) = _
    rw [functionAtom_eq hname]
  | str s =>
    obtain ⟨n, hn⟩ := (hD _ _ .here).string s rfl
    obtain ⟨hlt, hs, -⟩ := Array.findIdx?_eq_some_iff_getElem.1 hn
    refine .str (n := n) ?_ ?_ ?_
    · rw [Array.getElem?_eq_getElem hlt, eq_of_beq hs]
    · change some (stringAtom D s 0) = _
      rw [stringAtom_eq hn]
    · change some (stringAtom D s s.utf8ByteSize) = _
      rw [stringAtom_eq hn]
  | @array vs elem size hsize hvs ih =>
    by_cases hzero : Const.allZero vs = true
    · have ho : objectOf m D (.array vs) (.array elem size) = .zero := by
        simp only [objectOf, objectThrough, if_pos hzero]
      rw [ho]
      exact (WellTyped.array hsize hvs).represents_zero hzero (hflags _ _ _ .here hzero)
    · have ho : objectOf m D (.array vs) (.array elem size) = .parts [.parts (vs.map (objectOf m D · elem))] := by
        simp only [objectOf, objectThrough, if_neg hzero, objectsOf_eq_map, List.map_map]
        rfl
      rw [ho]
      refine .array fun i v hv => ?_
      have hmem := List.mem_of_getElem? hv
      have hpart : ((Object.parts [.parts (vs.map (objectOf m D · elem))]).part 0).part i = objectOf m D v elem :=
        Object.part_parts (by rw [List.getElem?_map, hv]; rfl)
      rw [hpart]
      refine ih v hmem (fun c' ty' hc' => hD c' ty' (.element (.inr (Bool.eq_false_of_not_eq_true hzero)) hmem hc')) ?_
      exact hflags.inside fun c' ty' => .element (.inl rfl) hmem
  | sintArray _ hrows =>
    rw [objectOf, hrows.objectThrough_eq]
    exact .sintArray (hrows.forall₂_rowsOf atom?_zero_of_sintArray fun _ _ => rfl)
  | uintArray _ hrows =>
    rw [objectOf, hrows.objectThrough_eq]
    exact .uintArray (hrows.forall₂_rowsOf atom?_zero_of_uintArray fun _ _ => rfl)
  | float32Array hrows =>
    rw [objectOf, hrows.objectThrough_eq]
    refine .float32Array (hrows.forall₂_rowsOf (fun hzero v hv => .inr ⟨?_, rfl⟩) fun _ _ => .inl rfl)
    exact eq_of_beq (List.all_eq_true.1 hzero v hv)
  | float64Array hrows =>
    rw [objectOf, hrows.objectThrough_eq]
    refine .float64Array (hrows.forall₂_rowsOf (fun hzero v hv => .inr ⟨?_, rfl⟩) fun _ _ => .inl rfl)
    exact eq_of_beq (List.all_eq_true.1 hzero v hv)
  | @tuple vs elems _ _ ih =>
    have ho : objectOf m D (.tuple vs) (.tuple elems) =
        .ofParts ((vs.zip elems).map fun x => objectOf m D x.1 x.2) := by
      simp only [objectOf, objectThrough, objectsOf_eq_map, List.zip_map_left, List.map_map]
      rfl
    rw [ho]
    refine .tuple fun i x hx => ?_
    have hmem := List.mem_of_getElem? hx
    rw [Object.part_ofParts (o := objectOf m D x.1 x.2) (by rw [List.getElem?_map, hx]; rfl)]
    exact ih x hmem (fun c' ty' hc' => hD c' ty' (.component hmem hc')) (hflags.inside fun c' ty' => .component hmem)
  | @aggregate vs id decl hdecl _ _ ih =>
    have ho : objectOf m D (.aggregate vs) (.aggregate id) =
        .ofParts ((vs.zip decl.members).map fun x => objectOf m D x.1 x.2) := by
      simp only [objectOf, objectThrough, objectsOf_eq_map, hdecl, Option.elim_some, List.zip_map_left, List.map_map]
      rfl
    rw [ho]
    refine .aggregate hdecl fun i x hx => ?_
    have hmem := List.mem_of_getElem? hx
    rw [Object.part_ofParts (o := objectOf m D x.1 x.2) (by rw [List.getElem?_map, hx]; rfl)]
    exact ih x hmem (fun c' ty' hc' => hD c' ty' (.member hdecl hmem hc'))
      (hflags.inside fun c' ty' => .member hdecl hmem)

end CBackend
