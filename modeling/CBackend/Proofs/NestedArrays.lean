import CBackend.Proofs.Initialisers.Forms
import Mathlib.Data.List.Infix
import Mathlib.Tactic.Ring

/-!
# Numbers in row-major order

The numbers of an array constant are kept in one list, however deep the arrays are nested. The compound literal has a
list between braces for each sub-array, and the number at a multi-index is the one at its row-major position.

## Main definitions

* `multiIndices`, `rowMajor` : the multi-indices of an array, and their positions.
* `nestText` : the text of a nest of lists.
* `IR.Ty.arrayOf`, `subarrays` : an array type with given sizes, and the types of its sub-arrays.

## Main results

* `map_rowMajor` : the positions of the multi-indices are all positions, each once and in order.
* `number_arrays_are_row_major` : the compound literal of an array of numbers.
-/

namespace CBackend

open IR
open C (CType)

variable {m : Module} {d : Draft} {elem : Ty} {sizes : List Nat} {es : List C.Expr} {kind : Builtin}

/-! ### Multi-indices -/

/-- The position of a multi-index, `((i₁ * n₂ + i₂) * n₃ + ..) + iₖ`, given that of the sub-array it goes into. -/
def rowMajor (position : Nat) : List Nat → List Nat → Nat
  | n :: ns, i :: index => rowMajor (position * n + i) ns index
  | _, _ => position

/-- The multi-indices below the given sizes, in lexicographic order. -/
def multiIndices : List Nat → List (List Nat)
  | [] => [[]]
  | n :: ns => (List.range n).flatMap fun i => (multiIndices ns).map (i :: ·)

theorem range_mul (n k : Nat) :
    List.range (n * k) = (List.range n).flatMap fun i => (List.range k).map (i * k + ·) := by
  induction n with
  | zero => simp
  | succ n ih => rw [Nat.succ_mul, List.range_add, ih, List.range_succ, List.flatMap_append, List.flatMap_singleton]

/-- A sub-array has the positions from its own on, each for one multi-index. -/
theorem map_rowMajor (sizes : List Nat) (position : Nat) : (multiIndices sizes).map (rowMajor position sizes) =
    (List.range sizes.prod).map (position * sizes.prod + ·) := by
  induction sizes generalizing position with
  | nil => simp [multiIndices, rowMajor]
  | cons n ns ih =>
    rw [multiIndices, List.prod_cons, range_mul, List.map_flatMap, List.map_flatMap]
    refine congrArg (fun f => (List.range n).flatMap f) (funext fun i => ?_)
    have hrow := ih (position * n + i)
    rw [List.map_map, List.map_map]
    refine hrow.trans (List.map_congr_left fun j _ => ?_)
    dsimp only [Function.comp]
    ring

/-! ### Nests of lists -/

/-- The text of a nest of lists between braces, given the type and the size of each level. -/
def nestText : List String → List Nat → (List Nat → String) → String
  | ty :: tys, n :: ns, leaf =>
    let entries := (List.range n).map fun i => nestText tys ns fun index => leaf (i :: index)
    "(" ++ ty ++ ")" ++ ("\x7b " ++ String.join (entries.map (· ++ ", ")) ++ "\x7d")
  | _, _, leaf => leaf []

theorem printEach_eq_map (types : C.TypeTable) (es : List C.Expr) :
    C.Expr.printEach types es = es.map (C.Expr.print types) := by
  induction es with
  | nil => rw [C.Expr.printEach, List.map_nil]
  | cons e es ih => rw [C.Expr.printEach, ih, List.map_cons]

/-- A list between braces is a nest, if its entries are. -/
theorem print_rows {types : C.TypeTable} {cty : CType} {rows : List C.Expr} {tys : List String} {n : Nat}
    {ns : List Nat} {leaf : List Nat → String} (hn : 0 < n) (hlength : rows.length = n)
    (hrows : ∀ i row, rows[i]? = some row → row.print types = nestText tys ns fun index => leaf (i :: index)) :
    (C.Expr.braces (some cty) .constant rows).print types = nestText (types.render cty :: tys) (n :: ns) leaf := by
  have hentries : C.Expr.printEach types rows =
      (List.range n).map fun i => nestText tys ns fun index => leaf (i :: index) := by
    rw [printEach_eq_map]
    refine List.ext_getElem (by simp [hlength]) fun i hi _ => ?_
    have hi : i < rows.length := by simpa using hi
    simpa using hrows i rows[i] (List.getElem?_eq_getElem hi)
  obtain ⟨n, rfl⟩ := Nat.exists_eq_add_of_lt hn
  rw [C.Expr.print, hentries, nestText, List.range_succ_eq_map, List.map_cons]
  rfl

/-! ### Array types -/

/-- The array type with the given sizes, the outermost first. -/
def IR.Ty.arrayOf (elem : Ty) : List Nat → Ty
  | [] => elem
  | n :: ns => .array (elem.arrayOf ns) n

/-- The types of an array and of its sub-arrays, down to the elements. -/
def subarrays (elem : Ty) : List Nat → List Ty
  | [] => []
  | n :: ns => elem.arrayOf (n :: ns) :: subarrays elem ns

/-- Whether a type is an array. -/
def IR.Ty.isArray : Ty → Bool
  | .array .. => true
  | _ => false

/-- The C types of an array and of its sub-arrays. -/
def LevelTypes (m : Module) (D : Draft) (elem : Ty) (sizes : List Nat) (ctys : List CType) : Prop :=
  List.Forall₂ (fun ty cty => typeOf? m ty D = some cty) (subarrays elem sizes) ctys

theorem exists_levelTypes {D : Draft} {cty : CType} (h : typeOf? m (elem.arrayOf sizes) D = some cty) :
    ∃ ctys, LevelTypes m D elem sizes ctys := by
  induction sizes generalizing cty with
  | nil => exact ⟨[], .nil⟩
  | cons n ns ih =>
    have h' := h
    rw [Ty.arrayOf, typeOf?] at h'
    obtain ⟨ety, hety, -⟩ := Option.bind_eq_some_iff.1 h'
    obtain ⟨ctys, hctys⟩ := ih hety
    exact ⟨cty :: ctys, .cons h hctys⟩

/-! ### Arrays of numbers -/

theorem nestedArray_flat (helem : elem.isArray = false) {size : Nat} :
    Lowering.nestedArray m true (.array elem size) es = Lowering.braced m true (.array elem size) es := by
  cases elem with
  | array => cases helem
  | _ => simp [Lowering.nestedArray]

theorem eq_of_getElem?_chunks {α : Type} {k i : Nat} {xs c : List α} (h : (Lowering.chunks k xs)[i]? = some c) :
    c = (xs.drop (i * k)).take k := by
  unfold Lowering.chunks at h
  generalize xs.length = fuel at h
  fun_induction Lowering.chunks.go k fuel xs generalizing i with
  | case1 | case2 => cases h
  | case3 n x xs ih =>
    cases i with
    | zero => simpa using h.symm
    | succ i =>
      rw [ih h, List.drop_drop]
      ring_nf

/-- The text of the expression at a position of a list. -/
def textAt (types : C.TypeTable) (es : List C.Expr) (position : Nat) : String :=
  (es[position]?.map (C.Expr.print types)).getD ""

theorem Ensures.braced_compound {ty : Ty} :
    Ensures d (Lowering.braced m true ty es) fun e d' => ∃ cty, e = .braces (some cty) .constant es ∧
      typeOf? m ty d' = some cty := by
  refine .bind (Finds.lowerType m ty true d) ?_
  rintro cty d₁ ⟨-, hcty⟩
  exact .pure ⟨cty, rfl, hcty⟩

/-- The numbers of a sub-array are written in row-major order, from its own position in the list on. The induction is on
the sizes. -/
theorem Ensures.nestedArray_text (helem : elem.isArray = false) (hne : sizes ≠ []) (hpos : ∀ n ∈ sizes, 1 ≤ n)
    {all : List C.Expr} {position : Nat} (hes : es <+: all.drop (position * sizes.prod))
    (hlength : es.length = sizes.prod) (d : Draft) :
    Ensures d (Lowering.nestedArray m true (elem.arrayOf sizes) es) fun e d' =>
      (∃ cty, typeOf? m (elem.arrayOf sizes) d' = some cty) ∧ ∀ D, Onward m d' D →
        ∀ ctys, LevelTypes m D elem sizes ctys → ∀ types, e.print types =
          nestText (ctys.map types.render) sizes fun index => textAt types all (rowMajor position sizes index) := by
  induction sizes generalizing es position d with
  | nil => exact absurd rfl hne
  | cons n ns ih =>
    have hn : 0 < n := hpos n List.mem_cons_self
    have hesne : es ≠ [] := List.ne_nil_of_length_pos (hlength ▸ List.prod_pos_iff_forall_pos_nat.2 hpos)
    cases ns with
    | nil =>
      rw [Ty.arrayOf, Ty.arrayOf, nestedArray_flat helem]
      refine .mono .braced_compound ?_
      rintro _ d' ⟨cty, rfl, hcty⟩
      refine ⟨⟨cty, hcty⟩, ?_⟩
      rintro D hlater _ (_ | ⟨hcty', ⟨⟩⟩) types
      cases (stable_typeOf? m _ d' D cty hlater.later hcty).symm.trans hcty'
      refine print_rows hn (by simpa using hlength) fun i e he => ?_
      have hposition : all[position * n + i]? = some e := by
        obtain ⟨rest, hrest⟩ := hes
        rw [List.prod_singleton] at hrest
        rw [← List.getElem?_drop, ← hrest, List.getElem?_append_left (List.getElem?_eq_some_iff.1 he).1, he]
      simp [nestText, textAt, rowMajor, hposition]
    | cons n' ns =>
      rw [List.prod_cons] at hlength hes
      obtain ⟨hcount, hpieces, -⟩ := chunks_spec hlength hesne
      have hstart (i : Nat) (c : List C.Expr) (hc : (Lowering.chunks (max (es.length / max n 1) 1) es)[i]? = some c) :
          c <+: all.drop ((position * n + i) * (n' :: ns).prod) := by
        have hdrop : (position * n + i) * (n' :: ns).prod = position * (n * (n' :: ns).prod) + i * (n' :: ns).prod := by
          ring
        rw [eq_of_getElem?_chunks hc, (stride_eq hlength hesne).2, hdrop, ← List.drop_drop]
        exact (List.take_prefix ..).trans (hes.drop _)
      rw [Ty.arrayOf, Ty.arrayOf, Lowering.nestedArray, if_neg (by simpa using hesne)]
      refine .bind (.mapM_onward (P := fun c e D => ∀ i,
          (Lowering.chunks (max (es.length / max n 1) 1) es)[i]? = some c →
            ∀ ctys, LevelTypes m D elem (n' :: ns) ctys → ∀ types, e.print types = nestText (ctys.map types.render) (n' :: ns) fun index =>
              textAt types all (rowMajor (position * n + i) (n' :: ns) index))
        (I := fun _ => True) (fun _ _ _ h => h) (fun c _ => .nestedArray_onward _ c)
        (fun c hc d _ e d' hrun D hlater i hi => ?_) d trivial) fun rows d₁ hrows => ?_
      · exact (ih (by simp) (fun k hk => hpos k (List.mem_cons_of_mem _ hk)) (hstart i c hi) (hpieces c hc) d
          e d' hrun).2 D hlater
      refine fun e d' hrun => ?_
      have hkept : Onward m d₁ d' := Keeps.braced_onward d₁ e d' hrun
      obtain ⟨cty, rfl, hcty⟩ := Ensures.braced_compound e d' hrun
      refine ⟨⟨cty, hcty⟩, ?_⟩
      rintro D hlater _ (_ | ⟨hcty', hctys⟩) types
      cases (stable_typeOf? m _ d' D cty hlater.later hcty).symm.trans hcty'
      have hrows := hrows D (hkept.trans hlater)
      refine print_rows hn (by rw [← hrows.length_eq, hcount]) fun i row hrow => ?_
      obtain ⟨hi, rfl⟩ := List.getElem?_eq_some_iff.1 hrow
      have hpiece : i < (Lowering.chunks (max (es.length / max n 1) 1) es).length := by rwa [hrows.length_eq]
      exact (List.forall₂_iff_get.1 hrows).2 i hpiece hi i (List.getElem?_eq_getElem hpiece) _ hctys types

/-! ### Results -/

/-- A computation has a result in every draft whose types are in order, and leaves such a draft behind. -/
def Returns {α : Type} (x : Emit α) : Prop :=
  ∀ d : Draft, d.Consistent → ∃ a d', x d = .ok (a, d') ∧ d'.Consistent

namespace Returns

variable {α β : Type}

theorem pure {a : α} : Returns (Pure.pure a) :=
  fun d hd => ⟨a, d, rfl, hd⟩

theorem bind {x : Emit β} {f : β → Emit α} (hx : Returns x) (hf : ∀ b, Returns (f b)) : Returns (x >>= f) := by
  intro d hd
  obtain ⟨b, d₁, hb, hd₁⟩ := hx d hd
  obtain ⟨a, d', ha, hd'⟩ := hf b d₁ hd₁
  refine ⟨a, d', ?_, hd'⟩
  change (x d >>= fun r => f r.1 r.2) = _
  rw [hb]
  exact ha

theorem mapM {l : List β} {f : β → Emit α} (hf : ∀ b, Returns (f b)) : Returns (l.mapM f) := by
  induction l with
  | nil => exact pure
  | cons b l ih =>
    rw [List.mapM_cons]
    exact bind (hf b) fun _ => bind ih fun _ => pure

theorem ofQuietly {x : Emit α} {Φ : α → Prop} (hx : Quietly true x x Φ)
    (h : ∀ d : Draft, d.Consistent → ∃ r, x d = .ok r) : Returns x := by
  intro d hd
  obtain ⟨⟨a, d'⟩, hrun⟩ := h d hd
  exact ⟨a, d', hrun, ((hx d fun _ => hd).ok a d' hrun).2.1 rfl⟩

/-- A run goes on from where its first step ends. -/
theorem bind_run {x : Emit β} {f : β → Emit α} {b : β} {s : Draft} (hx : x d = .ok (b, s))
    (hf : ∃ r, f b s = .ok r) : ∃ r, (x >>= f) d = .ok r := by
  change ∃ r, (x d >>= fun r => f r.1 r.2) = _
  rw [hx]
  exact hf

theorem builtin : Returns (Emit.builtin kind) := by
  refine ofQuietly .builtin fun d hd => bind_run rfl ?_
  have hkind : Builtin.all.idxOf kind < d.builtins.size := by
    rw [hd.builtins]
    exact List.idxOf_lt_length_of_mem (by cases kind <;> decide)
  have hfound : d.builtin? kind = some d.builtins[Builtin.all.idxOf kind] := Array.getElem?_eq_getElem hkind
  rw [hfound]
  exact ⟨_, rfl⟩

theorem nameType_array {n : Nat} (h : n = d.unit.types.arrays.names.size) :
    ∃ r, Emit.nameType (.array n) d = .ok r := by
  have hname : ∃ types, d.unit.types.setName (.array n) s!"t_{d.typeCounter}" = .ok types := by
    rw [C.TypeTable.setName, C.Shapes.setName, if_pos h]
    exact ⟨_, rfl⟩
  obtain ⟨types, hname⟩ := hname
  refine bind_run rfl (bind_run (b := types) (s := d) ?_ ⟨_, rfl⟩)
  rw [hname]
  rfl

/-- The names of the arrays are in order, so that a new one gets its name. -/
theorem arrayType {ty : CType} {size : Nat} : Returns (Emit.arrayType ty size) := by
  refine ofQuietly .arrayType fun d hd => bind_run rfl ?_
  obtain ⟨n, h⟩ | h := C.Shapes.intern_cases d.unit.types.arrays ⟨ty, size⟩ <;>
    simp only [C.TypeTable.internArray, h]
  · exact ⟨_, rfl⟩
  · refine bind_run rfl ?_
    rw [if_pos trivial]
    obtain ⟨⟨⟨⟩, d'⟩, hname⟩ := nameType_array
      (d := { d with unit.types.arrays.shapes := d.unit.types.arrays.shapes.push ⟨ty, size⟩ }) hd.arrayNames.symm
    exact bind_run hname ⟨_, rfl⟩

theorem braced (helem : elem.builtinKind? = some kind) (sizes : List Nat) (es : List C.Expr) :
    Returns (Lowering.braced m true (elem.arrayOf sizes) es) := by
  have htype : Returns (Lowering.valueType m (elem.arrayOf sizes)) := by
    unfold Lowering.valueType Lowering.lowerType
    induction sizes with
    | nil => cases elem <;> cases helem <;> exact builtin
    | cons n ns ih => exact bind ih fun _ => arrayType
  exact bind htype fun _ => pure

theorem nestedArray (helem : elem.builtinKind? = some kind) (hne : sizes ≠ []) :
    Returns (Lowering.nestedArray m true (elem.arrayOf sizes) es) := by
  induction sizes generalizing es with
  | nil => exact absurd rfl hne
  | cons n ns ih =>
    cases ns with
    | nil =>
      have hflat : elem.isArray = false := by cases elem <;> first | rfl | cases helem
      rw [Ty.arrayOf, Ty.arrayOf, nestedArray_flat hflat]
      exact braced helem [n] es
    | cons n' ns =>
      rw [Ty.arrayOf, Ty.arrayOf, Lowering.nestedArray]
      split
      · exact braced helem (n :: n' :: ns) []
      · exact bind (mapM fun _ => ih (by simp)) fun _ => braced helem (n :: n' :: ns) _

end Returns

/-- The numbers of a flat array of integers, as they are written one by one. -/
def IR.Const.numberExprs? : Const → Option (List C.Expr)
  | .sintArray vs => some (vs.map Lowering.signedExpr)
  | .uintArray vs => some (vs.map Lowering.unsignedExpr)
  | _ => none

/-- A flat array of integers at a nested array type is a nest of lists. The list at each level has the size and the C
type of its sub-array, and the leaf at a multi-index is the number at its row-major position. -/
theorem number_arrays_are_row_major {sizes : List Nat} {c : Const} {es : List C.Expr} (helem : elem.isArray = false)
    (hne : sizes ≠ []) (hpos : ∀ n ∈ sizes, 1 ≤ n) (hc : c.numberExprs? = some es) (hlength : es.length = sizes.prod)
    (hzero : c.isZero = false) :
    (elem.builtinKind?.isSome = true → d.Consistent →
      ∃ e d', Lowering.constantExpr m true c (elem.arrayOf sizes) d = .ok (e, d')) ∧
    (∀ e d', Lowering.constantExpr m true c (elem.arrayOf sizes) d = .ok (e, d') →
      ∃ ctys, LevelTypes m d' elem sizes ctys ∧ ∀ types, e.print types =
        nestText (ctys.map types.render) sizes fun index => textAt types es (rowMajor 0 sizes index)) ∧
    (multiIndices sizes).map (rowMajor 0 sizes) = List.range es.length := by
  have hrun : Lowering.constantExpr m true c (elem.arrayOf sizes) =
      Lowering.nestedArray m true (elem.arrayOf sizes) es := by
    obtain ⟨n, ns, rfl⟩ := List.exists_cons_of_ne_nil hne
    cases c <;> cases hc <;>
      simp [Lowering.constantExpr, Ty.arrayOf, Lowering.throughOptionals, Lowering.numberArray, hzero]
  rw [hrun, hlength]
  refine ⟨fun hkind hd => ?_, fun e d' he => ?_, by simp [map_rowMajor]⟩
  · obtain ⟨kind, hkind⟩ := Option.isSome_iff_exists.1 hkind
    obtain ⟨e, d', he, -⟩ := Returns.nestedArray hkind hne d hd
    exact ⟨e, d', he⟩
  · have hall : es <+: es.drop (0 * sizes.prod) := by simp
    obtain ⟨⟨cty, hcty⟩, htext⟩ := Ensures.nestedArray_text helem hne hpos hall hlength d e d' he
    obtain ⟨ctys, hctys⟩ := exists_levelTypes hcty
    exact ⟨ctys, hctys, htext d' (.refl d') ctys hctys⟩

/-- Six numbers in two rows of three. -/
theorem number_arrays_are_row_major_six : ∃ d e d' ctys, Draft.new {} = .ok d ∧
    Lowering.constantExpr {} true (.sintArray [1, -2, 3, 0, 5, 6]) ((Ty.builtin .i32).arrayOf [2, 3]) d = .ok (e, d') ∧
    LevelTypes {} d' (.builtin .i32) [2, 3] ctys ∧ ∀ types, e.print types =
      nestText (ctys.map types.render) [2, 3] fun index =>
        textAt types ([1, -2, 3, 0, 5, 6].map Lowering.signedExpr) (rowMajor 0 [2, 3] index) := by
  have hok : (Draft.new {}).isOk = true := by decide +kernel
  cases hnew : Draft.new {} with
  | error e =>
    rw [hnew] at hok
    cases hok
  | ok d =>
    have hconsistent : d.Consistent := (Draft.harmless_new {}).2 d hnew
    obtain ⟨hreturns, htext, -⟩ := @number_arrays_are_row_major {} d (.builtin .i32) [2, 3]
      (.sintArray [1, -2, 3, 0, 5, 6]) _ rfl (by simp) (by simp) rfl rfl (by decide)
    obtain ⟨e, d', hrun⟩ := hreturns rfl hconsistent
    obtain ⟨ctys, hctys, hprint⟩ := htext e d' hrun
    exact ⟨d, e, d', ctys, rfl, hrun, hctys, hprint⟩

end CBackend
