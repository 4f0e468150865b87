import CBackend.Proofs.Initialisers.Constants

/-!
# The two forms of an initialiser

The compound literal of a constant initialises the object of the constant, and so does the plain list as long as no
array has elements that are lists themselves.
-/

namespace CBackend

open IR Lowering
open C (CType Part Atom Object Whole Wholes Inits memberParts)

variable {m : Module} {d D : Draft} {compound : Bool} {α β : Type} {s : String} {d' : Draft} {count n size : Nat}
  {types : C.TypeTable} {cty : CType} {oty : Option CType} {es : List C.Expr} {os : List Object} {members : List CType}
  {kind : Builtin} {ty : Ty} {c : Const} {vs : List Const} {tys : List Ty} {xs : List α} {P : α → β → Prop}
  {ys : List β}

/-! ### Scalars -/

/-- An expression does not start the array inside of a struct. -/
def Free (e : C.Expr) : Prop :=
  ∀ elem size, ¬C.Starts (.elements elem size) e

theorem free_literal (l : C.Literal) : Free (.literal l) :=
  fun _ _ h => h

theorem free_signedExpr (v : Int64) : Free (signedExpr v) := by
  unfold signedExpr
  split <;> exact fun _ _ h => h

theorem free_enumExpr (v : UInt64) (underlying : Builtin) : Free (enumExpr v underlying) := by
  unfold enumExpr
  split
  · exact free_signedExpr _
  · exact free_literal _

theorem atom?_int (v : Int) : (C.Expr.literal (.int v)).atom? = some (.int v) := by
  rw [C.Expr.atom?, C.readConstant_int]
  · rfl
  all_goals nofun

theorem atom?_nat (n : Nat) : (C.Expr.nat n).atom? = some (.int n) :=
  atom?_int n

theorem atom?_signedExpr (v : Int64) : (signedExpr v).atom? = some (.int v.toInt) := by
  unfold signedExpr
  split
  · rw [C.Expr.atom?, C.Expr.atom?, atom?_int, atom?_nat]
    simp [Atom.combine]
  · exact atom?_int _

theorem atom?_unsignedExpr (v : UInt64) : (unsignedExpr v).atom? = some (.int v.toNat) := by
  rw [unsignedExpr, C.Expr.atom?, C.readConstant_unsigned]
  · rfl
  all_goals nofun

theorem atom?_char (c : Char) : (C.Expr.literal (.char c)).atom? = some (.int c.toNat) := by
  rw [C.Expr.atom?, C.readConstant_char]
  · rfl
  all_goals nofun

theorem atom?_enumExpr (v : UInt64) (underlying : Builtin) :
    (enumExpr v underlying).atom? = some (.int (enumInt v underlying)) := by
  unfold enumExpr enumInt
  split
  · exact atom?_signedExpr _
  · exact atom?_unsignedExpr _

/-- A floating-point literal, whatever it includes. -/
theorem Ensures.floatExpr_eq {format : FloatFormat} {bits : Nat} {l : C.Literal} :
    Ensures d (floatExpr format bits l) fun e _ => e = .literal l := by
  unfold floatExpr
  split
  · exact .pure rfl
  · exact .bind (.modify (Φ := fun _ _ => True) trivial) fun _ _ _ => .pure rfl

/-- A string constant has storage with its number, and is the first one that does. -/
theorem Ensures.internString_findIdx? :
    Ensures d (Emit.internString s) fun n d' => d'.strings.findIdx? (· == s) = some n := by
  refine .get_bind ?_
  split
  · next n hn => exact .pure hn
  · next hnone =>
    refine .bind (Q := fun _ d₁ => SameSymbols d d₁) (Keeps.builtin d) fun _ d₁ hsame => ?_
    refine .bind (.modify (Φ := fun _ d₂ => d₂.strings = d.strings.push s) ?_) fun _ d₂ hpush => ?_
    · rw [hsame.strings]
    refine .bind (.modify (Φ := fun _ d₃ => d₃.strings = d.strings.push s) hpush) fun _ d₃ hpush => .pure ?_
    rw [hpush, Array.findIdx?_push, hnone]
    simp

theorem Onward.findIdx?_eq (hlater : Onward m d d') (h : d.strings.findIdx? (· == s) = some n) :
    d'.strings.findIdx? (· == s) = some n :=
  findIdx?_eq_some_of_getElem? (fun i x hx => ⟨x, hlater.strings i x hx, rfl⟩) h

theorem stringAtom_eq (h : D.strings.findIdx? (· == s) = some n) (offset : Nat) :
    stringAtom D s offset = .address (.string n) offset := by
  rw [stringAtom, h]
  rfl

theorem functionAtom_eq {func : FuncId} {name : C.Name} (h : D.functions.lookup func = some name) :
    functionAtom D func = .address name 0 := by
  rw [functionAtom, h]
  rfl

/-! ### Lists -/

/-- Items that are lowered one after the other keep their meaning. -/
theorem Ensures.mapM_onward {f : α → Emit β} {P : α → β → Draft → Prop} {I : Draft → Prop}
    (hI : ∀ d d', Onward m d d' → I d → I d') (hkeeps : ∀ x ∈ xs, Keeps (Onward m) (f x))
    (h : ∀ x ∈ xs, ∀ d, I d → Ensures d (f x) fun y d' => ∀ D, Onward m d' D → P x y D) (d : Draft) (hd : I d) :
    Ensures d (xs.mapM f) fun ys d' => ∀ D, Onward m d' D → List.Forall₂ (P · · D) xs ys := by
  induction xs generalizing d with
  | nil => exact .pure fun _ _ => .nil
  | cons x xs ih =>
    rw [List.mapM_cons]
    have hx := hkeeps x List.mem_cons_self
    have hxs : Keeps (Onward m) (xs.mapM f) := .mapM fun x hx => hkeeps x (List.mem_cons_of_mem _ hx)
    refine .bind (Q := fun y d₁ => I d₁ ∧ ∀ D, Onward m d₁ D → P x y D)
      (fun y d₁ hrun => ⟨hI d d₁ (hx d y d₁ hrun) hd, h x List.mem_cons_self d hd y d₁ hrun⟩) ?_
    rintro y d₁ ⟨hd₁, hy⟩
    refine .bind (Q := fun ys d₂ => Onward m d₁ d₂ ∧ ∀ D, Onward m d₂ D → List.Forall₂ (P · · D) xs ys)
      (fun ys d₂ hrun => ⟨hxs d₁ ys d₂ hrun, ?_⟩) ?_
    · exact ih (fun x hx => hkeeps x (List.mem_cons_of_mem _ hx)) (fun x hx => h x (List.mem_cons_of_mem _ hx)) d₁ hd₁
        ys d₂ hrun
    · rintro ys d₂ ⟨hlater, hys⟩
      exact .pure fun D hD => .cons (hy D (hlater.trans hD)) (hys D hD)

/-- Two lists that each match a third one match each other. -/
theorem forall₂_join {γ : Type} {Q : α → γ → Prop} {R : β → γ → Prop} {zs : List γ} (h : List.Forall₂ P xs ys)
    (h' : List.Forall₂ Q xs zs) (hjoin : ∀ x y z, P x y → Q x z → R y z) :
    List.Forall₂ R ys zs := by
  induction h generalizing zs with
  | nil =>
    cases h'
    exact .nil
  | cons hp _ ih =>
    cases h' with
    | cons hq hrest => exact .cons (hjoin _ _ _ hp hq) (ih hrest)

theorem exists_of_forall₂ (h : List.Forall₂ P xs ys) {y : β} (hy : y ∈ ys) : ∃ x ∈ xs, P x y := by
  induction h with
  | nil => cases hy
  | cons hp _ ih =>
    obtain rfl | hy := List.mem_cons.1 hy
    · exact ⟨_, List.mem_cons_self, hp⟩
    · obtain ⟨x, hx, hxy⟩ := ih hy
      exact ⟨x, List.mem_cons_of_mem _ hx, hxy⟩

/-- The pieces of two lists that match each other match each other. -/
theorem forall₂_chunks {R : α → β → Prop} (h : List.Forall₂ R xs ys) (k : Nat) :
    List.Forall₂ (List.Forall₂ R) (chunks k xs) (chunks k ys) := by
  unfold chunks
  rw [← h.length_eq]
  generalize xs.length = fuel
  induction fuel generalizing xs ys with
  | zero => exact .nil
  | succ fuel ih =>
    cases h with
    | nil => exact .nil
    | cons hxy hrest =>
      have hall := List.Forall₂.cons hxy hrest
      exact .cons (List.forall₂_take k hall) (ih (List.forall₂_drop k hall))

/-- A list of `size * k` items is cut into `size` pieces of `k` items. -/
theorem chunks_go_spec {k : Nat} (hk : 0 < k) {fuel : Nat} (hlength : xs.length = size * k) (hfuel : size ≤ fuel) :
    (chunks.go k fuel xs).length = size ∧ (∀ c ∈ chunks.go k fuel xs, c.length = k) ∧
      (chunks.go k fuel xs).flatten = xs := by
  induction size generalizing fuel xs with
  | zero =>
    have hnil : xs = [] := List.eq_nil_of_length_eq_zero (by omega)
    subst hnil
    cases fuel <;> exact ⟨rfl, nofun, rfl⟩
  | succ size ih =>
    have hmul : (size + 1) * k = size * k + k := Nat.succ_mul size k
    obtain ⟨fuel, rfl⟩ : ∃ f, fuel = f + 1 := ⟨fuel - 1, by omega⟩
    obtain ⟨x, xs, rfl⟩ := List.exists_cons_of_length_pos (l := xs) (by omega)
    have hdrop : ((x :: xs).drop k).length = size * k := by
      rw [List.length_drop]
      omega
    obtain ⟨hsize, hpieces, hflatten⟩ := ih hdrop (by omega : size ≤ fuel)
    refine ⟨by rw [chunks.go, List.length_cons, hsize], ?_, ?_⟩
    · rintro c hc
      rw [chunks.go, List.mem_cons] at hc
      obtain rfl | hc := hc
      · rw [List.length_take]
        omega
      · exact hpieces c hc
    · rw [chunks.go, List.flatten_cons, hflatten, List.take_append_drop]

theorem stride_eq (hlength : xs.length = size * count) (hne : xs ≠ []) :
    0 < count ∧ max (xs.length / max size 1) 1 = count := by
  have hpos : 0 < size * count := hlength ▸ List.length_pos_iff.2 hne
  have hsize : 0 < size := Nat.pos_of_mul_pos_right hpos
  have hcount : 0 < count := Nat.pos_of_mul_pos_left hpos
  rw [hlength, Nat.max_eq_left hsize, Nat.mul_div_cancel_left count hsize, Nat.max_eq_left hcount]
  exact ⟨hcount, rfl⟩

/-- The rows of an array type: the pieces that its numbers are cut into. -/
theorem chunks_spec (hlength : xs.length = size * count) (hne : xs ≠ []) :
    (chunks (max (xs.length / max size 1) 1) xs).length = size ∧
      (∀ c ∈ chunks (max (xs.length / max size 1) 1) xs, c.length = count) ∧
      (chunks (max (xs.length / max size 1) 1) xs).flatten = xs := by
  obtain ⟨hcount, hstride⟩ := stride_eq hlength hne
  rw [hstride]
  refine chunks_go_spec hcount hlength ?_
  rw [hlength]
  exact Nat.le_mul_of_pos_right size hcount

/-- A list of items for the elements of an array. -/
theorem whole_array {ety : CType} (hparts : types.parts? (.object cty) = some [.elements ety (max size 1)])
    (hstarts : C.Starts (.object cty) (.braces oty .constant es)) (hsize : es.length = size) (hne : es ≠ [])
    (hfree : ∀ e ∈ es, Free e) (h : List.Forall₂ (Whole types (.object ety)) es os) :
    Whole types (.object cty) (.braces oty .constant es) (.parts [.parts os]) := by
  obtain ⟨e, es, rfl⟩ := List.exists_cons_of_ne_nil hne
  have hmax : max size 1 = es.length + 1 := by
    rw [← hsize, List.length_cons]
    omega
  rw [hmax] at hparts
  have helements := Wholes.elements (hfree e List.mem_cons_self ety _) h
  exact fun _ _ _ _ => .braces hstarts (by simp) hparts helements

/-- The list without items. -/
theorem whole_zeroed (hstarts : C.Starts (.object cty) (.braces oty .constant [])) :
    Whole types (.object cty) (.braces oty .constant []) .zero :=
  fun _ _ _ _ => .zeroed hstarts

/-- A list of items for the members of a struct. -/
theorem whole_struct (hparts : types.parts? (.object cty) = some (memberParts members))
    (hstarts : C.Starts (.object cty) (.braces oty .constant es)) (h : Wholes types (members.map .object) es os) :
    Whole types (.object cty) (.braces oty .constant es) (.ofParts os) := by
  cases members with
  | nil =>
    cases h
    exact whole_zeroed hstarts
  | cons member members =>
    have hinits := h.inits []
    rw [List.append_nil] at hinits
    cases h
    exact fun _ _ _ _ => .braces hstarts (by simp) hparts hinits

theorem whole_pair {a b : CType} {e₁ e₂ : C.Expr} {o₁ o₂ : Object}
    (hparts : types.parts? (.object cty) = some [.object a, .object b])
    (hstarts : C.Starts (.object cty) (.braces oty .constant [e₁, e₂])) (h₁ : Whole types (.object a) e₁ o₁)
    (h₂ : Whole types (.object b) e₂ o₂) :
    Whole types (.object cty) (.braces oty .constant [e₁, e₂]) (.parts [o₁, o₂]) := by
  have hwholes : Wholes types ([a, b].map .object) [e₁, e₂] [o₁, o₂] := .cons h₁ (.cons h₂ .nil)
  exact whole_struct hparts hstarts hwholes

theorem free_of_ne_none {style : C.BraceStyle} (h : oty ≠ none) :
    Free (.braces oty style es) := by
  intro elem size hstarts
  cases oty with
  | none => exact h rfl
  | some ty => cases hstarts

/-! ### Arrays of numbers -/

theorem nestedArray_numbers :
    nestedArray m compound (.array (.builtin kind) size) es =
      braced m compound (.array (.builtin kind) size) es := by
  simp [nestedArray]

/-- The numbers of an array make the rows of its type. -/
theorem Ensures.nestedArray_initialises (hrows : Rows kind ty n) (hlength : es.length = n) (hfree : ∀ e ∈ es, Free e)
    (d : Draft) :
    Ensures d (nestedArray m compound ty es) fun e d' => ∀ D, Onward m d' D → D.Laid m →
      (compound = true ∨ ∃ size, ty = .array (.builtin kind) size) →
      (compound = true → Free e) ∧ ∀ vs, List.Forall₂ (fun e a => C.Expr.atom? e = some a) es vs →
        ∀ cty, typeOf? m ty D = some cty → Whole D.unit.types (.object cty) e (rowsObject ty vs) := by
  induction hrows generalizing es d with
  | numbers size =>
    rw [nestedArray_numbers]
    refine .mono .braced_starts ?_
    rintro _ d' ⟨oty, rfl, hoty, hstarts⟩ D hlater hD -
    refine ⟨fun h => free_of_ne_none (hoty h), fun vs hvs cty hcty => ?_⟩
    obtain ⟨ety, hety, hparts⟩ := parts?_array hcty
    have hstarts := hstarts D hlater cty hcty
    have hscalar := parts?_builtinOf? hD hety
    cases hvs with
    | nil => exact whole_zeroed hstarts
    | @cons e v es vs hv hvs =>
      refine whole_array hparts hstarts hlength (by simp) hfree ?_
      rw [List.forall₂_map_right_iff]
      exact List.Forall₂.imp (fun e a ha => Whole.scalar hscalar ha) (.cons hv hvs)
  | @rows elem inner count size hinner ih =>
    by_cases hes : es = []
    · subst hes
      rw [nestedArray, if_pos List.isEmpty_nil]
      refine .mono .braced_starts ?_
      rintro _ d' ⟨oty, rfl, hoty, hstarts⟩ D hlater - -
      refine ⟨fun h => free_of_ne_none (hoty h), fun vs hvs cty hcty => ?_⟩
      cases hvs
      exact whole_zeroed (hstarts D hlater cty hcty)
    · obtain ⟨hcount, hpieces, -⟩ := chunks_spec hlength hes
      have hsub : ∀ c ∈ chunks (max (es.length / max size 1) 1) es, ∀ e ∈ c, Free e := by
        intro c hc e he
        refine hfree e ?_
        rw [← (chunks_spec hlength hes).2.2]
        exact List.mem_flatten.2 ⟨c, hc, he⟩
      rw [nestedArray, if_neg (by simpa using hes)]
      refine .bind (.mapM_onward (P := fun c e D => D.Laid m →
          (compound = true ∨ ∃ size, Ty.array elem inner = .array (.builtin kind) size) →
          (compound = true → Free e) ∧ ∀ vs, List.Forall₂ (fun e a => C.Expr.atom? e = some a) c vs →
            ∀ cty, typeOf? m (.array elem inner) D = some cty →
              Whole D.unit.types (.object cty) e (rowsObject (.array elem inner) vs))
        (I := fun _ => True) (fun _ _ _ h => h) (fun c _ => .nestedArray_onward _ c)
        (fun c hc d _ => ih (hpieces c hc) (hsub c hc) d) d trivial) fun rows d₁ hrows => ?_
      refine fun e d' hrun => ?_
      have hkept : Onward m d₁ d' := Keeps.braced_onward d₁ e d' hrun
      obtain ⟨oty, rfl, hoty, hstarts⟩ := Ensures.braced_starts e d' hrun
      intro D hlater hD hform
      refine ⟨fun h => free_of_ne_none (hoty h), fun vs hvs cty hcty => ?_⟩
      have hcompound : compound = true := by
        obtain h | ⟨_, ⟨⟩⟩ := hform
        exact h
      obtain ⟨ety, hety, hparts⟩ := parts?_array hcty
      have hrows := hrows D (hkept.trans hlater)
      have hlen : rows.length = size := by rw [← hrows.length_eq, hcount]
      have hne : rows ≠ [] := by
        rintro rfl
        have hzero : size = 0 := by simpa using hlen.symm
        subst hzero
        exact hes (List.eq_nil_of_length_eq_zero (by simpa using hlength))
      have hvsne : vs ≠ [] := by
        rintro rfl
        cases hvs
        exact hes rfl
      rw [rowsObject, if_neg (by simpa using hvsne), ← hvs.length_eq]
      refine whole_array hparts (hstarts D hlater cty hcty) hlen hne ?_ ?_
      · intro e he
        obtain ⟨c, -, hc⟩ := exists_of_forall₂ hrows he
        exact (hc hD (.inl hcompound)).1 hcompound
      · rw [List.forall₂_map_right_iff]
        refine forall₂_join hrows (forall₂_chunks hvs _) fun c e ws he hws => ?_
        exact (he hD (.inl hcompound)).2 ws hws ety hety

/-! ### Constants -/

/-- What is asked of a draft and of a constant: the aggregates that are written out are defined, and in a plain list the
arrays that are written out have elements without braces. -/
structure Expects (m : Module) (compound : Bool) (D : Draft) (c : Const) (ty : Ty) : Prop where
  resolved : ∀ c' id, Occurs m false c ty c' (.aggregate id) → ∃ n, D.aggregates.lookup id = some (.resolved n)
  plain : compound = false → PlainArrays m c ty

/-- A constant inside of another one needs no more than that one. -/
theorem Expects.inside {v : Const} {vty : Ty} (h : Expects m compound D c ty)
    (hinside : ∀ c' ty', Occurs m false v vty c' ty' → Occurs m false c ty c' ty') : Expects m compound D v vty :=
  ⟨fun c' id hc' => h.resolved c' id (hinside c' _ hc'),
    fun hplain c' elem size hc' => h.plain hplain c' elem size (hinside c' _ hc')⟩

/-- An initialiser makes the object of a constant. -/
def Initialises (m : Module) (compound : Bool) (D : Draft) (c : Const) (ty : Ty) (e : C.Expr) : Prop :=
  D.Laid m → Expects m compound D c ty → ((compound = true ∨ ty.isLeaf = true) → Free e) ∧
    ∀ cty, typeOf? m ty D = some cty → Whole D.unit.types (.object cty) e (objectOf m D c ty)

/-- A constant without parts. -/
theorem Initialises.scalar {e : C.Expr} {a : Atom} (hleaf : ty.isLeaf = true) (hfree : Free e) (ha : e.atom? = some a)
    (ho : objectOf m D c ty = .leaf a) : Initialises m compound D c ty e := by
  intro hD _
  refine ⟨fun _ => hfree, fun cty hcty => ?_⟩
  rw [ho]
  exact .scalar (parts?_of_isLeaf hD hleaf hcty) ha

/-- The members of a struct, each with its constant. -/
theorem wholes_members (hlength : vs.length = tys.length)
    (hmembers : List.Forall₂ (fun ty cty => typeOf? m ty D = some cty) tys members)
    (hes : List.Forall₂ (fun x e => ∀ cty, typeOf? m x.2 D = some cty →
      Whole D.unit.types (.object cty) e (objectOf m D x.1 x.2)) (vs.zip tys) es) :
    Wholes D.unit.types (members.map .object) es ((vs.zip tys).map fun x => objectOf m D x.1 x.2) := by
  induction hmembers generalizing vs es with
  | nil =>
    rw [List.zip_nil_right] at hes
    cases hes
    rw [List.zip_nil_right]
    exact .nil
  | @cons ty cty tys members hty _ ih =>
    obtain ⟨v, vs, rfl⟩ := List.exists_cons_of_length_pos (l := vs) (by rw [hlength]; simp)
    cases hes with
    | cons he hes => exact .cons (he cty hty) (ih (by simpa using hlength) hes)

theorem Rows.throughOptionals_eq (h : Rows kind ty n) (p : Ty → Emit C.Expr) :
    throughOptionals m compound p ty = p ty := by
  cases h <;> rfl

theorem Rows.objectThrough_eq (h : Rows kind ty n) (p : Ty → Object) :
    objectThrough p ty = p ty := by
  cases h <;> rfl

theorem Rows.isLeaf_eq (h : Rows kind ty n) : ty.isLeaf = false := by
  cases h <;> rfl

/-- The list without items. -/
theorem Ensures.braced_zero (hleaf : ty.isLeaf = false) (ho : ∀ D, objectOf m D c ty = .zero) :
    Ensures d (braced m compound ty []) fun e d' => ∀ D, Onward m d' D →
      Initialises m compound D c ty e := by
  refine .mono .braced_starts ?_
  rintro _ d' ⟨oty, rfl, hoty, hstarts⟩ D hlater hD -
  refine ⟨?_, fun cty hcty => ?_⟩
  · rintro (h | h)
    · exact free_of_ne_none (hoty h)
    · cases hleaf.symm.trans h
  · rw [ho D]
    exact whole_zeroed (hstarts D hlater cty hcty)

/-- An array of numbers, given what its numbers are. -/
theorem Ensures.numbers_initialise {vs : List Atom} (hrows : Rows kind ty n) (hlength : es.length = n)
    (hfree : ∀ e ∈ es, Free e) (hes : List.Forall₂ (fun e a => C.Expr.atom? e = some a) es vs)
    (ho : ∀ D, objectOf m D c ty = numbersObject c.isZero vs ty) (d : Draft) :
    Ensures d (if c.isZero = true then braced m compound ty [] else nestedArray m compound ty es)
      fun e d' => ∀ D, Onward m d' D → Initialises m compound D c ty e := by
  by_cases hzero : c.isZero = true
  · rw [if_pos hzero]
    refine .braced_zero hrows.isLeaf_eq fun D => ?_
    rw [ho D, numbersObject, if_pos hzero]
  rw [if_neg hzero]
  refine .mono (.nestedArray_initialises hrows hlength hfree d) fun e d' h D hlater hD hexpects => ?_
  have hform : compound = true ∨ ∃ size, ty = .array (.builtin kind) size := by
    cases compound with
    | true => exact .inl rfl
    | false =>
      cases hrows with
      | numbers => exact .inr ⟨_, rfl⟩
      | rows =>
        obtain h | h := hexpects.plain rfl c _ _ .here
        · exact absurd h hzero
        · cases h
  obtain ⟨hcompound, hwhole⟩ := h D hlater hD hform
  refine ⟨?_, fun cty hcty => ?_⟩
  · rintro (h | h)
    · exact hcompound h
    · cases hrows.isLeaf_eq.symm.trans h
  · rw [ho D, numbersObject, if_neg hzero]
    exact hwhole vs hes cty hcty

/-- An array of numbers that are lowered to one literal each. -/
theorem Ensures.floats_initialise {f : α → Emit C.Expr} {l : α → C.Literal} {text : α → String}
    (hf : ∀ x d, Ensures d (f x) fun e _ => e = .literal (l x)) (hrows : Rows kind ty xs.length)
    (hatom : ∀ x, (C.Expr.literal (l x)).atom? = some (.float (text x)))
    (ho : ∀ D, objectOf m D c ty = numbersObject c.isZero (xs.map fun x => .float (text x)) ty) (d : Draft) :
    Ensures d (if c.isZero = true then braced m compound ty []
      else do nestedArray m compound ty (← xs.mapM f))
      fun e d' => ∀ D, Onward m d' D → Initialises m compound D c ty e := by
  have hxs (d : Draft) : Ensures d (xs.mapM f) fun es _ => es = xs.map fun x => .literal (l x) := by
    clear hrows ho
    induction xs generalizing d with
    | nil => exact .pure rfl
    | cons x xs ih =>
      rw [List.mapM_cons]
      refine .bind (hf x d) ?_
      rintro _ d₁ rfl
      refine .bind (ih d₁) ?_
      rintro _ d₂ rfl
      exact .pure rfl
  have hnumbers (d : Draft) : Ensures d (if c.isZero = true then braced m compound ty []
      else nestedArray m compound ty (xs.map fun x => .literal (l x)))
      fun e d' => ∀ D, Onward m d' D → Initialises m compound D c ty e := by
    refine .numbers_initialise hrows (List.length_map _) (by simpa using fun x _ => free_literal _) ?_ ho d
    rw [List.forall₂_map_left_iff, List.forall₂_map_right_iff, List.forall₂_same]
    exact fun x _ => hatom x
  by_cases hzero : c.isZero = true
  · simpa only [if_pos hzero] using hnumbers d
  · rw [if_neg hzero]
    refine .bind (hxs d) ?_
    rintro _ d₁ rfl
    simpa only [if_neg hzero] using hnumbers d₁

/-- A list of items for the members of a struct. -/
theorem Ensures.braced_members {d₁ : Draft} (hleaf : ty.isLeaf = false) (hlength : vs.length = tys.length)
    (hinside : ∀ x ∈ vs.zip tys, ∀ c' ty', Occurs m false x.1 x.2 c' ty' → Occurs m false c ty c' ty')
    (hes : ∀ D, Onward m d₁ D → List.Forall₂ (fun x e => x ∈ vs.zip tys ∧ Initialises m compound D x.1 x.2 e)
      (vs.zip tys) es) (hparts : ∀ D, D.Laid m → Expects m compound D c ty → ∀ cty, typeOf? m ty D = some cty →
      ∃ members, List.Forall₂ (fun ty cty => typeOf? m ty D = some cty) tys members ∧
        D.unit.types.parts? (.object cty) = some (memberParts members))
    (ho : ∀ D, objectOf m D c ty = .ofParts ((vs.zip tys).map fun x => objectOf m D x.1 x.2)) :
    Ensures d₁ (braced m compound ty es) fun e d' => ∀ D, Onward m d' D →
      Initialises m compound D c ty e := by
  intro e d' hrun
  have hkept : Onward m d₁ d' := Keeps.braced_onward d₁ e d' hrun
  obtain ⟨oty, rfl, hoty, hstarts⟩ := Ensures.braced_starts e d' hrun
  intro D hlater hD hexpects
  refine ⟨?_, fun cty hcty => ?_⟩
  · rintro (h | h)
    · exact free_of_ne_none (hoty h)
    · cases hleaf.symm.trans h
  · obtain ⟨members, hmembers, hparts⟩ := hparts D hD hexpects cty hcty
    rw [ho D]
    refine whole_struct hparts (hstarts D hlater cty hcty) (wholes_members hlength hmembers ?_)
    refine List.Forall₂.imp (fun x e he => ?_) (hes D (hkept.trans hlater))
    exact (he.2 hD (hexpects.inside (hinside x he.1))).2

/-- The initialiser of a constant makes its object. -/
theorem WellTyped.initialises (h : WellTyped m c ty) (d : Draft) :
    Ensures d (constantExpr m compound c ty) fun e d' => ∀ D, Onward m d' D →
      Initialises m compound D c ty e := by
  induction h generalizing d with
  | null payload =>
    by_cases hlike : (Ty.optional payload).isOptionalPointerLike = true
    · rw [constantExpr, if_pos hlike]
      refine .pure fun D _ => .scalar hlike (free_literal _) (atom?_nat 0) ?_
      rw [objectOf, if_pos hlike]
      rfl
    · rw [constantExpr, if_neg hlike]
      refine .braced_zero (Bool.eq_false_of_not_eq_true hlike) fun D => ?_
      rw [objectOf, if_neg hlike]
  | @present c payload hc _ ih =>
    rw [constantExpr_optional hc]
    by_cases hlike : (Ty.optional payload).isOptionalPointerLike = true
    · simp only [if_pos hlike]
      refine .bind (ih d) fun e d₁ he => .pure fun D hlater hD hexpects => ?_
      obtain ⟨hfree, hwhole⟩ := he D hlater hD (hexpects.inside fun c' ty' => .payload hc)
      have hleaf : payload.isLeaf = true := by cases payload <;> first | rfl | cases hlike
      refine ⟨fun _ => hfree (.inr hleaf), fun cty hcty => ?_⟩
      rw [objectOf_optional hc, if_pos hlike]
      rw [typeOf?, if_pos hlike] at hcty
      exact hwhole cty hcty
    · simp only [if_neg hlike]
      refine .bind (ih d) fun e d₁ he => ?_
      intro e' d' hrun
      have hkept : Onward m d₁ d' := Keeps.braced_onward d₁ e' d' hrun
      obtain ⟨oty, rfl, hoty, hstarts⟩ := Ensures.braced_starts e' d' hrun
      intro D hlater hD hexpects
      refine ⟨?_, fun cty hcty => ?_⟩
      · rintro (h | h)
        · exact free_of_ne_none (hoty h)
        · exact absurd h hlike
      · obtain ⟨pty, bty, hpty, hbty, hparts⟩ := parts?_optional (Bool.eq_false_of_not_eq_true hlike) hcty
        obtain ⟨-, hwhole⟩ := he D (hkept.trans hlater) hD (hexpects.inside fun c' ty' => .payload hc)
        rw [objectOf_optional hc, if_neg hlike]
        exact whole_pair hparts (hstarts D hlater cty hcty) (hwhole pty hpty)
          (.scalar (parts?_builtinOf? hD hbty) (atom?_nat 1))
  | sint v => exact .pure fun D _ => .scalar rfl (free_signedExpr v) (atom?_signedExpr v) rfl
  | uint v => exact .pure fun D _ => .scalar rfl (free_literal _) (atom?_unsignedExpr v) rfl
  | float32 bits =>
    refine .mono (Ensures.floatExpr_eq (l := .float32 bits)) ?_
    rintro _ _ rfl D -
    exact .scalar rfl (free_literal _) rfl rfl
  | float64 bits =>
    refine .mono (Ensures.floatExpr_eq (l := .float64 bits)) ?_
    rintro _ _ rfl D -
    exact .scalar rfl (free_literal _) rfl rfl
  | char c => exact .pure fun D _ => .scalar rfl (free_literal _) (atom?_char c) rfl
  | bool b => exact .pure fun D _ => .scalar rfl (free_literal _) (atom?_nat _) rfl
  | void => exact .pure fun D _ => .scalar rfl (fun _ _ h => h) rfl rfl
  | enum v underlying => exact .pure fun D _ => .scalar rfl (free_enumExpr v underlying) (atom?_enumExpr v underlying) rfl
  | function func result params =>
    refine .bind (Q := fun name d' => d'.functions.lookup func = some name)
      (fun name d' hrun => (Ensures.declareFunction name d' hrun).lookup_eq) fun name d' hname => ?_
    refine .pure fun D hlater => .scalar rfl (fun _ _ h => h) rfl ?_
    change Object.leaf (functionAtom D func) = _
    rw [functionAtom_eq (hlater.functions func name hname)]
  | str s =>
    refine .bind .internString_findIdx? fun n d₁ hn => ?_
    intro e d' hrun
    have hkept : Onward m d₁ d' := Keeps.braced_onward d₁ e d' hrun
    obtain ⟨oty, rfl, hoty, hstarts⟩ := Ensures.braced_starts e d' hrun
    intro D hlater hD _
    refine ⟨?_, fun cty hcty => ?_⟩
    · rintro (h | h)
      · exact free_of_ne_none (hoty h)
      · cases h
    · obtain ⟨pty, hscalar, hparts⟩ := parts?_str hcty
      have hatom := stringAtom_eq ((hkept.trans hlater).findIdx?_eq hn)
      change Whole _ _ _ (.parts [.leaf (stringAtom D s 0), .leaf (stringAtom D s s.utf8ByteSize)])
      rw [hatom, hatom]
      refine whole_pair hparts (hstarts D hlater cty hcty) (.scalar hscalar rfl) (.scalar hscalar ?_)
      rw [C.Expr.atom?, C.Expr.atom?, atom?_nat]
      simp [Atom.combine]
  | @array vs elem size hsize _ ih =>
    simp only [constantExpr, throughOptionals]
    by_cases hzero : Const.allZero vs = true
    · rw [if_pos hzero]
      refine .braced_zero rfl fun D => ?_
      simp only [objectOf, objectThrough, if_pos hzero]
    · rw [if_neg hzero, constantExprs_eq_map, List.mapM_map]
      refine .bind (.mapM_onward (P := fun v e D => v ∈ vs ∧ Initialises m compound D v elem e)
        (I := fun _ => True) (fun _ _ _ h => h) (fun v _ => .constantExpr_onward v elem) (fun v hv d _ => ?_) d trivial)
        fun es d₁ hes => ?_
      · exact .mono (ih v hv d) fun e d' he D hlater => ⟨hv, he D hlater⟩
      intro e d' hrun
      have hkept : Onward m d₁ d' := Keeps.braced_onward d₁ e d' hrun
      obtain ⟨oty, rfl, hoty, hstarts⟩ := Ensures.braced_starts e d' hrun
      intro D hlater hD hexpects
      refine ⟨?_, fun cty hcty => ?_⟩
      · rintro (h | h)
        · exact free_of_ne_none (hoty h)
        · cases h
      · obtain ⟨ety, hety, hparts⟩ := parts?_array hcty
        have hes := hes D (hkept.trans hlater)
        have hinside (v : Const) (hv : v ∈ vs) : Expects m compound D v elem :=
          hexpects.inside fun c' ty' => .element (.inr (Bool.eq_false_of_not_eq_true hzero)) hv
        have hform : compound = true ∨ elem.isLeaf = true := by
          cases compound with
          | true => exact .inl rfl
          | false =>
            obtain h | h := hexpects.plain rfl _ _ _ .here
            · exact absurd h hzero
            · exact .inr h
        have hne : es ≠ [] := by
          rintro rfl
          have hnil : vs = [] := List.eq_nil_of_length_eq_zero hes.length_eq
          subst hnil
          exact hzero rfl
        simp only [objectOf, objectThrough, if_neg hzero, objectsOf_eq_map, List.map_map]
        refine whole_array hparts (hstarts D hlater cty hcty) (hes.length_eq.symm.trans hsize) hne ?_ ?_
        · intro e he
          obtain ⟨v, -, hv, hinit⟩ := exists_of_forall₂ hes he
          exact (hinit hD (hinside v hv)).1 hform
        · rw [List.forall₂_map_right_iff]
          refine List.Forall₂.flip (List.Forall₂.imp (fun v e he => ?_) hes)
          exact (he.2 hD (hinside v he.1)).2 ety hety
  | @sintArray vs kind ty _ hrows =>
    rw [constantExpr, hrows.throughOptionals_eq, numberArray]
    refine .numbers_initialise hrows (List.length_map _) ?_ ?_ (fun D => by rw [objectOf, hrows.objectThrough_eq]) d
    · simpa using fun v _ => free_signedExpr v
    · rw [List.forall₂_map_left_iff, List.forall₂_map_right_iff, List.forall₂_same]
      exact fun v _ => atom?_signedExpr v
  | @uintArray vs kind ty _ hrows =>
    rw [constantExpr, hrows.throughOptionals_eq, numberArray]
    refine .numbers_initialise hrows (List.length_map _) ?_ ?_ (fun D => by rw [objectOf, hrows.objectThrough_eq]) d
    · simpa [unsignedExpr] using fun v _ => free_literal _
    · rw [List.forall₂_map_left_iff, List.forall₂_map_right_iff, List.forall₂_same]
      exact fun v _ => atom?_unsignedExpr v
  | @float32Array vs ty hrows =>
    rw [constantExpr, hrows.throughOptionals_eq]
    refine .floats_initialise (l := .float32) (fun _ _ => .floatExpr_eq) hrows (fun _ => rfl) (fun D => ?_) d
    rw [objectOf, hrows.objectThrough_eq]
  | @float64Array vs ty hrows =>
    rw [constantExpr, hrows.throughOptionals_eq]
    refine .floats_initialise (l := .float64) (fun _ _ => .floatExpr_eq) hrows (fun _ => rfl) (fun D => ?_) d
    rw [objectOf, hrows.objectThrough_eq]
  | @tuple vs elems hlength _ ih =>
    simp only [constantExpr, throughOptionals]
    rw [constantExprs_eq_map, List.zip_map_left, List.mapM_map]
    refine .bind (.mapM_onward (P := fun x e D => x ∈ vs.zip elems ∧ Initialises m compound D x.1 x.2 e)
      (I := fun _ => True) (fun _ _ _ h => h) (fun x _ => .constantExpr_onward x.1 x.2) (fun x hx d _ => ?_) d trivial)
      fun es d₁ hes => ?_
    · exact .mono (ih x hx d) fun e d' he D hlater => ⟨hx, he D hlater⟩
    refine .braced_members rfl hlength (fun x hx c' ty' => .component hx) hes ?_ fun D => ?_
    · exact fun D _ _ cty hcty => parts?_tuple hcty
    · simp only [objectOf, objectThrough, objectsOf_eq_map, List.zip_map_left, List.map_map]
      rfl
  | @aggregate vs id decl hdecl hlength _ ih =>
    simp only [constantExpr, throughOptionals]
    refine .lift_bind fun decl' hdecl' => ?_
    cases hdecl.symm.trans (eq_some_of_inRange hdecl')
    rw [constantExprs_eq_map, List.zip_map_left, List.mapM_map]
    refine .bind (.mapM_onward (P := fun x e D => x ∈ vs.zip decl.members ∧ Initialises m compound D x.1 x.2 e)
      (I := fun _ => True) (fun _ _ _ h => h) (fun x _ => .constantExpr_onward x.1 x.2) (fun x hx d _ => ?_) d trivial)
      fun es d₁ hes => ?_
    · exact .mono (ih x hx d) fun e d' he D hlater => ⟨hx, he D hlater⟩
    refine .braced_members rfl hlength (fun x hx c' ty' => .member hdecl hx) hes ?_ fun D => ?_
    · intro D hD hexpects cty hcty
      obtain ⟨n, hn⟩ := hexpects.resolved _ id .here
      obtain ⟨decl', members, hdecl', hparts, hmembers⟩ := parts?_aggregateOf? hD hn hcty
      cases hdecl.symm.trans hdecl'
      exact ⟨members, hmembers, hparts⟩
    · simp only [objectOf, objectThrough, objectsOf_eq_map, hdecl, Option.elim_some, List.zip_map_left, List.map_map]
      rfl

/-! ### What constants leave behind -/

/-- A draft has what a constant at a type refers to: the members of its aggregate, the name of its function, or the
storage of its string. -/
structure Recorded (D : Draft) (c : Const) (ty : Ty) : Prop where
  aggregate : ∀ id, ty = .aggregate id → ∃ n, D.aggregates.lookup id = some (.resolved n)
  function : ∀ func, c = .function func → ∃ name, D.functions.lookup func = some name
  string : ∀ s, c = .str s → ∃ n, D.strings.findIdx? (· == s) = some n

/-- A draft has what the constants refer to that are written out. -/
def Defines (m : Module) (c : Const) (ty : Ty) (D : Draft) : Prop :=
  ∀ c' ty', Occurs m false c ty c' ty' → Recorded D c' ty'

theorem Recorded.onward (h : Recorded d c ty) (hlater : Onward m d d') :
    Recorded d' c ty where
  aggregate id hid := by
    obtain ⟨n, hn⟩ := h.aggregate id hid
    obtain ⟨s, hs, hgoes⟩ := hlater.progress.states id _ hn
    rw [hgoes.eq_of_resolved] at hs
    exact ⟨n, hs⟩
  function func hfunc := by
    obtain ⟨name, hname⟩ := h.function func hfunc
    exact ⟨name, hlater.functions func name hname⟩
  string s hs := by
    obtain ⟨n, hn⟩ := h.string s hs
    exact ⟨n, hlater.findIdx?_eq hn⟩

theorem Defines.onward (h : Defines m c ty d) (hlater : Onward m d d') :
    Defines m c ty d' :=
  fun c' ty' hc' => (h c' ty' hc').onward hlater

/-- Constants that are written out one after the other. -/
theorem Ensures.parts_define {xs : List (Const × Ty)} (hd : d.Settled)
    (h : ∀ x ∈ xs, ∀ d, d.Settled → Ensures d (constantExpr m true x.1 x.2) fun _ d' => Defines m x.1 x.2 d') :
    Ensures d (xs.mapM fun x => constantExpr m true x.1 x.2) fun _ d' =>
      d'.Settled ∧ ∀ x ∈ xs, Defines m x.1 x.2 d' := by
  have hkeeps (x : Const × Ty) (_ : x ∈ xs) : Keeps (Onward m) (constantExpr m true x.1 x.2) :=
    .constantExpr_onward x.1 x.2
  intro es d' hrun
  refine ⟨(Keeps.mapM hkeeps d es d' hrun).noneStarted.settled hd, fun x hx => ?_⟩
  have hall := Ensures.mapM_onward (P := fun x _ D => Defines m x.1 x.2 D) (I := Draft.Settled)
    (fun _ _ hlater => hlater.noneStarted.settled) hkeeps
    (fun x hx d hd => .mono (h x hx d hd) fun _ _ hdefines _ => hdefines.onward) d hd es d' hrun d' (.refl d')
  obtain ⟨_, -, hx⟩ := exists_of_forall₂ hall.flip hx
  exact hx

/-- Arrays of numbers refer to nothing. -/
theorem Rows.defines (h : Rows kind ty n) (hc : ∀ vs, c ≠ .array vs) (hfunction : ∀ func, c ≠ .function func)
    (hstring : ∀ s, c ≠ .str s) :
    Defines m c ty D := by
  have hhere : Recorded D c ty := by
    refine ⟨fun id hid => ?_, fun func hfunc => absurd hfunc (hfunction func), fun s hs => absurd hs (hstring s)⟩
    subst hid
    cases h
  intro c' ty' hc'
  cases h with
  | numbers =>
    cases hc' with
    | here => exact hhere
    | element => exact absurd rfl (hc _)
  | rows =>
    cases hc' with
    | here => exact hhere
    | element => exact absurd rfl (hc _)

/-- The compound literal of a constant leaves behind what the constant refers to. -/
theorem WellTyped.defines (h : WellTyped m c ty) (d : Draft) (hd : d.Settled) :
    Ensures d (constantExpr m true c ty) fun _ d' => Defines m c ty d' := by
  induction h generalizing d with
  | null payload =>
    intro e d' _ c' ty' hc'
    cases hc' with
    | here => exact ⟨by rintro _ ⟨⟩, by rintro _ ⟨⟩, by rintro _ ⟨⟩⟩
    | payload hc => exact absurd rfl hc
  | @present c payload hc _ ih =>
    rw [constantExpr_optional hc]
    refine .bind (ih d hd) fun e d₁ hdefines => ?_
    have hrest : Keeps (Onward m) (if (Ty.optional payload).isOptionalPointerLike = true then pure e
        else braced m true (.optional payload) [e, .nat 1]) :=
      .ite .pure .braced_onward
    intro e' d' hrun c' ty' hc'
    have hdefines := hdefines.onward (hrest d₁ e' d' hrun)
    cases hc' with
    | here => exact ⟨by rintro _ ⟨⟩, (hdefines c payload .here).function, (hdefines c payload .here).string⟩
    | payload _ hc' => exact hdefines c' ty' hc'
  | sint | uint | float32 | float64 | char | bool | void | enum =>
    intro e d' _ c' ty' hc'
    cases hc'
    exact ⟨by rintro _ ⟨⟩, by rintro _ ⟨⟩, by rintro _ ⟨⟩⟩
  | function func result params =>
    refine .bind (Q := fun name d' => d'.functions.lookup func = some name)
      (fun name d' hrun => (Ensures.declareFunction name d' hrun).lookup_eq) fun name d' hname => ?_
    refine .pure fun c' ty' hc' => ?_
    cases hc'
    exact ⟨by rintro _ ⟨⟩, by rintro _ ⟨⟩; exact ⟨name, hname⟩, by rintro _ ⟨⟩⟩
  | str s =>
    refine .bind .internString_findIdx? fun n d₁ hn e d' hrun c' ty' hc' => ?_
    have hlater : Onward m d₁ d' := Keeps.braced_onward d₁ e d' hrun
    cases hc'
    exact ⟨by rintro _ ⟨⟩, by rintro _ ⟨⟩, by rintro _ ⟨⟩; exact ⟨n, hlater.findIdx?_eq hn⟩⟩
  | sintArray _ hrows => exact fun _ _ _ => hrows.defines (by rintro _ ⟨⟩) (by rintro _ ⟨⟩) (by rintro _ ⟨⟩)
  | uintArray _ hrows => exact fun _ _ _ => hrows.defines (by rintro _ ⟨⟩) (by rintro _ ⟨⟩) (by rintro _ ⟨⟩)
  | float32Array hrows => exact fun _ _ _ => hrows.defines (by rintro _ ⟨⟩) (by rintro _ ⟨⟩) (by rintro _ ⟨⟩)
  | float64Array hrows => exact fun _ _ _ => hrows.defines (by rintro _ ⟨⟩) (by rintro _ ⟨⟩) (by rintro _ ⟨⟩)
  | @array vs elem size _ _ ih =>
    have hhere (D : Draft) : Recorded D (.array vs) (.array elem size) :=
      ⟨by rintro _ ⟨⟩, by rintro _ ⟨⟩, by rintro _ ⟨⟩⟩
    simp only [constantExpr, throughOptionals]
    by_cases hzero : Const.allZero vs = true
    · intro e d' _ c' ty' hc'
      cases hc' with
      | here => exact hhere d'
      | element hall =>
        obtain h | h := hall
        · cases h
        · cases hzero.symm.trans h
    · rw [if_neg hzero, constantExprs_eq_map, List.mapM_map]
      have hvs : Ensures d (vs.mapM fun v => constantExpr m true v elem) fun _ d' =>
          ∀ v ∈ vs, Defines m v elem d' := by
        have hpairs : Ensures d ((vs.map fun v => (v, elem)).mapM fun x => constantExpr m true x.1 x.2)
            fun _ d' => d'.Settled ∧ ∀ x ∈ vs.map fun v => (v, elem), Defines m x.1 x.2 d' :=
          .parts_define hd (by simpa using ih)
        rw [List.mapM_map] at hpairs
        exact .mono hpairs fun _ _ h v hv => h.2 (v, elem) (List.mem_map_of_mem hv)
      refine .bind hvs fun es d₁ hdefines e d' hrun c' ty' hc' => ?_
      cases hc' with
      | here => exact hhere d'
      | element _ hv hc' => exact (hdefines _ hv).onward (Keeps.braced_onward d₁ e d' hrun) c' ty' hc'
  | @tuple vs elems _ _ ih =>
    simp only [constantExpr, throughOptionals]
    rw [constantExprs_eq_map, List.zip_map_left, List.mapM_map]
    refine .bind (.parts_define hd ih) fun es d₁ hdefines e d' hrun c' ty' hc' => ?_
    cases hc' with
    | here => exact ⟨by rintro _ ⟨⟩, by rintro _ ⟨⟩, by rintro _ ⟨⟩⟩
    | component hx hc' => exact (hdefines.2 _ hx).onward (Keeps.braced_onward d₁ e d' hrun) c' ty' hc'
  | @aggregate vs id decl hdecl _ _ ih =>
    simp only [constantExpr, throughOptionals]
    refine .lift_bind fun decl' hdecl' => ?_
    cases hdecl.symm.trans (eq_some_of_inRange hdecl')
    rw [constantExprs_eq_map, List.zip_map_left, List.mapM_map]
    refine .bind (.parts_define hd ih) fun es d₁ hdefines => ?_
    refine .bind (Q := fun _ d' => Onward m d₁ d' ∧ ∃ n, d'.aggregates.lookup id = some (.resolved n))
      (fun ty d' hrun => ⟨Keeps.lowerType_onward d₁ ty d' hrun, Ensures.aggregate_resolved hdefines.1 ty d' hrun⟩) ?_
    rintro ty d' ⟨hlater, hresolved⟩
    refine .pure fun c' ty' hc' => ?_
    cases hc' with
    | here => exact ⟨by rintro _ ⟨⟩; exact hresolved, by rintro _ ⟨⟩, by rintro _ ⟨⟩⟩
    | member hdecl' hx hc' =>
      cases hdecl.symm.trans hdecl'
      exact (hdefines.2 _ hx).onward hlater c' ty' hc'

end CBackend
