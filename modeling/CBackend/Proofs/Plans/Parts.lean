import CBackend.Proofs.Plans.Operands

/-!
# Parts of two objects

The steps that the lowering of plans has in common: code for the members of two structs one after the other, a loop
over the elements of two arrays, and the flags and payloads of two optionals.
-/

namespace CBackend

open IR
open Memory
open C (CType)

variable {m : Module} {d d' : Draft} {limit : Nat} {ℓ : Layout} {v w x y : Value} {ty : CType} {i k size : Nat}

/-- The sizes of all arrays are below a limit. -/
def Memory.Layout.Below (limit : Nat) : Layout → Prop
  | leaf => True
  | record n part => ∀ i, i < n → (part i).Below limit
  | array size elem => size < limit ∧ elem.Below limit
  | optional payload => payload.Below limit

/-- Two values that a plan is lowered for. Values that lowering takes for the same are the same. -/
structure Pair (limit : Nat) (d : Draft) (ℓ : Layout) (v w : Value) : Prop where
  left : v.Addressable d
  right : w.Addressable d
  leftLayout : CLayout d.unit.types v.ty ℓ
  rightLayout : CLayout d.unit.types w.ty ℓ
  sizes : ℓ.Below limit
  same : v.same w = true ∨ w.same v = true → v = w

namespace Pair

theorem symm (h : Pair limit d ℓ v w) : Pair limit d ℓ w v :=
  ⟨h.right, h.left, h.rightLayout, h.leftLayout, h.sizes, fun hs => (h.same hs.symm).symm⟩

theorem later (h : Pair limit d ℓ v w) (hlater : Later d d') (hvalues : d.valueCounter ≤ d'.valueCounter) :
    Pair limit d' ℓ v w :=
  ⟨h.left.later hvalues, h.right.later hvalues, h.leftLayout.later hlater, h.rightLayout.later hlater, h.sizes, h.same⟩

theorem kept (h : Pair limit d ℓ v w) (hkept : Untouched d d') : Pair limit d' ℓ v w :=
  h.later hkept.types hkept.values

end Pair

theorem Value.same_self (v : Value) : v.same v = true := by
  simp [Value.same]

/-- Values with different numbers are not the same. -/
theorem Value.same_eq_false {a b : Content} (hv : v.content = some a) (hw : w.content = some b) (h : a.id ≠ b.id) :
    v.same w = false := by
  simp [Value.same, hv, hw, h]

/-! ### Members -/

/-- A type is a struct whose member has a layout. -/
def HasMember (t : C.TypeTable) (ty : CType) (i : Nat) (ℓ : Layout) : Prop :=
  ∃ n shape, ty.struct? = some n ∧ t.structs.get? n = some shape ∧ shape.isResolved = true ∧
    ∀ mty, shape.members[i]? = some mty → CLayout t mty ℓ

theorem CLayout.hasMember_record {t : C.TypeTable} {part : Nat → Layout} (h : CLayout t ty (.record k part))
    (hi : i < k) : HasMember t ty i (part i) := by
  cases h with
  | record hstruct hshape hresolved h => exact ⟨_, _, hstruct, hshape, hresolved, fun mty => h i mty hi⟩

theorem CLayout.hasMember_payload {t : C.TypeTable} (h : CLayout t ty (.optional ℓ)) : HasMember t ty 0 ℓ := by
  cases h with
  | optional hstruct hshape hresolved h => exact ⟨_, _, hstruct, hshape, hresolved, h⟩

theorem HasMember.later (h : HasMember d.unit.types ty i ℓ) (hlater : Later d d') :
    HasMember d'.unit.types ty i ℓ := by
  obtain ⟨n, shape, hn, hshape, hresolved, h⟩ := h
  obtain ⟨shape', hshape', rfl | ⟨rfl, -⟩⟩ := hlater.structs n shape hshape
  · exact ⟨n, _, hn, hshape', hresolved, fun mty hmty => (h mty hmty).later hlater⟩
  · cases hresolved

/-- Values with numbers one after the other are a pair. -/
theorem Pair.of_numbers {a b : Content} (hv : v.isRvalue = false) (hw : w.isRvalue = false) (ha : v.content = some a)
    (hb : w.content = some b) (hlt : a.id < b.id) (hb' : b.id < d.valueCounter) (hv' : CLayout d.unit.types v.ty ℓ)
    (hw' : CLayout d.unit.types w.ty ℓ) (hsizes : ℓ.Below limit) : Pair limit d ℓ v w := by
  refine ⟨⟨hv, a, ha, Nat.lt_trans hlt hb'⟩, ⟨hw, b, hb, hb'⟩, hv', hw', hsizes, ?_⟩
  rintro (hs | hs)
  · rw [Value.same_eq_false ha hb (Nat.ne_of_lt hlt)] at hs
    cases hs
  · rw [Value.same_eq_false hb ha (Nat.ne_of_gt hlt)] at hs
    cases hs

namespace Adds

/-- The same member of two values. -/
theorem memberPair {α : Type} {f : Value → Value → Emit α} {Φ : α → List Step → Draft → Prop} (hx : x.isRvalue = false)
    (hy : y.isRvalue = false) (hxm : HasMember d.unit.types x.ty i ℓ) (hym : HasMember d.unit.types y.ty i ℓ)
    (hsizes : ℓ.Below limit)
    (h : ∀ a b d₁, Untouched d d₁ → a.IsPart x (memberPath i) → b.IsPart y (memberPath i) → Pair limit d₁ ℓ a b →
      Adds d₁ (f a b) Φ) :
    Adds d (do let a ← Emit.member x i; let b ← Emit.member y i; f a b) Φ := by
  refine .bind .member ?_
  rintro a _ d₁ hkept ⟨rfl, ha, har, ⟨e, hae⟩, hlt, haty⟩
  refine .bind .member ?_
  rintro b _ d₂ hkept' ⟨rfl, hb, hbr, ⟨e', hbe⟩, hlt', hbty⟩
  refine .mono (h a b d₂ (hkept.trans hkept') ha hb ?_) fun _ _ _ _ hΦ => hΦ
  obtain ⟨n, shape, hn, hshape, -, hlayout⟩ := hxm
  obtain ⟨n', shape', hn', hshape', -, hlayout'⟩ := hym.later hkept.types
  exact .of_numbers (har.trans hx) (hbr.trans hy) hae hbe hlt hlt'
    ((hlayout _ (haty n shape hn hshape)).later (hkept.trans hkept').types)
    ((hlayout' _ (hbty n' shape' hn' hshape')).later hkept'.types) hsizes

/-- Code for the members of two structs, one after the other. -/
theorem members {op : Op} {part : Nat → Layout} {f : ExprId × Nat → Emit Unit} {n : Nat} {ids : List ExprId}
    {S₀ : List Step} (h₀ : AchievesMembers limit op part k n v w S₀) (hn : n ≤ d.func.counter)
    (h : ∀ i id, ids[i]? = some id → ∀ d₁, Untouched d d₁ → Adds d₁ (f (id, k + i)) fun _ S _ => ∃ a b,
      a.IsPart v (memberPath (k + i)) ∧ b.IsPart w (memberPath (k + i)) ∧
        Achieves limit op (part (k + i)) d₁.func.counter a b S) :
    Adds d ((ids.zipIdx k).forM f) fun _ S _ =>
      AchievesMembers limit op part (k + ids.length) n v w (S₀ ++ S) := by
  induction ids generalizing d k S₀ with
  | nil => exact .pure (by simpa using h₀)
  | cons id ids ih =>
    refine .bind (h 0 id rfl d (.refl d)) ?_
    rintro _ S d₁ hkept ⟨a, b, ha, hb, hS⟩
    have hstep := h₀.append hn hS ha hb
    refine .mono (ih hstep (hn.trans hkept.counter) fun i id' hi d₂ hkept' => ?_) ?_
    · have h' := h (i + 1) id' hi d₂ (hkept.trans hkept')
      rwa [show k + (i + 1) = k + 1 + i by omega] at h'
    · intro _ S' _ _ hS'
      rw [List.length_cons, show k + (ids.length + 1) = k + 1 + ids.length by omega, ← List.append_assoc]
      exact hS'

/-! ### Elements -/

theorem beginIndexLoop : Adds d (Emit.beginIndexLoop size) fun index S d' =>
    d.func.counter < d'.func.counter ∧ ∃ ty k, index = ⟨some ⟨k, .name (.localVar d.func.counter)⟩, { isVariable := true }, .atom, ty⟩ ∧
      S = [.line (.declare ty d.func.counter (some (.nat 0))),
        .line (.whileLoop (.binary "<" (.name (.localVar d.func.counter)) (.nat size))), .line .openBlock] := by
  refine .bind .sizeType ?_
  rintro ty _ _ - ⟨rfl, rfl⟩
  refine .bind .declareWith ?_
  rintro _ _ d₁ hkept ⟨rfl, hlt, k, rfl⟩
  refine .lift_bind fun e he => ?_
  cases he
  refine .bind .line ?_
  rintro _ _ d₂ hkept' rfl
  refine .bind .openBlock ?_
  rintro _ _ d₃ hkept'' rfl
  exact .pure ⟨Nat.lt_of_lt_of_le hlt (hkept'.trans hkept'').counter, ty, k, rfl, rfl⟩

theorem endIndexLoop {j : Nat} {ty : CType} :
    Adds d (Emit.endIndexLoop ⟨some ⟨k, .name (.localVar j)⟩, { isVariable := true }, .atom, ty⟩) fun _ S _ =>
      S = [.line (.expression (.before "++" (.name (.localVar j)))), .line .closeBlock] := by
  have hincrement : Adds d (Emit.increment ⟨some ⟨k, .name (.localVar j)⟩, { isVariable := true }, .atom, ty⟩ "++")
      fun _ S _ => S = [.line (.expression (.before "++" (.name (.localVar j))))] := by
    refine .lift_bind fun e he => ?_
    cases he
    exact .line
  refine .bind hincrement ?_
  rintro _ _ d₁ - rfl
  refine .mono .closeBlock ?_
  rintro _ _ _ - rfl
  rfl

/-- The elements of two values at the same index. -/
theorem elementPair {α : Type} {f : Value → Value → Emit α} {Φ : α → List Step → Draft → Prop} {index : Value} {j : Nat}
    (hindex : index.IsLocal j) (h : Pair limit d (.array size ℓ) x y)
    (hf : ∀ a b d₁, Untouched d d₁ → IsItem a x j → IsItem b y j → Pair limit d₁ ℓ a b → Adds d₁ (f a b) Φ) :
    Adds d (do let a ← Emit.element x index; let b ← Emit.element y index; f a b) Φ := by
  refine .bind (.element hindex) ?_
  rintro a _ d₁ hkept ⟨rfl, ha, har, ⟨e, hae⟩, hlt, haty⟩
  refine .bind (.element hindex) ?_
  rintro b _ d₂ hkept' ⟨rfl, hb, hbr, ⟨e', hbe⟩, hlt', hbty⟩
  refine .mono (hf a b d₂ (hkept.trans hkept') ha hb ?_) fun _ _ _ _ hΦ => hΦ
  have hx : CLayout d.unit.types a.ty ℓ := by
    cases h.leftLayout with
    | array hn hshape hlayout => rwa [haty _ _ hn hshape]
  have hy : CLayout d₁.unit.types b.ty ℓ := by
    cases h.rightLayout.later hkept.types with
    | array hn hshape hlayout => rwa [hbty _ _ hn hshape]
  exact .of_numbers (har.trans h.left.lvalue) (hbr.trans h.right.lvalue) hae hbe hlt hlt'
    (hx.later (hkept.trans hkept').types) (hy.later hkept'.types) h.sizes.2

/-- A loop over the elements of two arrays. -/
theorem elements {u : Value} {f : Value → Value → Emit Unit} {Q : Nat → Value → Value → List Step → Prop}
    (h : Pair limit d (.array size ℓ) x y) (hu : u = x ∨ u = y)
    (hf : ∀ a b d₁, Pair limit d₁ ℓ a b → Untouched d d₁ → Adds d₁ (f a b) fun _ S _ => Q d₁.func.counter a b S) :
    Adds d (do
      let shape ← Emit.arrayShape u.ty
      let index ← Emit.beginIndexLoop shape.size
      let a ← Emit.element x index
      let b ← Emit.element y index
      f a b
      Emit.endIndexLoop index) fun _ S _ => ∃ ty j n a b S', d.func.counter ≤ j ∧ j < n ∧ IsItem a x j ∧ IsItem b y j ∧
        Q n a b S' ∧ S = loopSteps ty j size S' := by
  refine .bind .arrayShape ?_
  rintro shape _ d₀ - ⟨rfl, rfl, hshape⟩
  have hsize : shape.size = size := by
    have hlayout : ∀ ty, CLayout d₀.unit.types ty (.array size ℓ) → u.ty = ty → shape.size = size := by
      rintro _ (_ | _ | ⟨hn, hshape', _⟩) rfl
      cases (hshape _ hn).symm.trans hshape'
      rfl
    rcases hu with rfl | rfl
    · exact hlayout _ h.leftLayout rfl
    · exact hlayout _ h.rightLayout rfl
  refine .bind .beginIndexLoop ?_
  rintro index _ d₁ hkept ⟨hlt, ty, k, rfl, rfl⟩
  refine .elementPair isLocal_variable (h.kept hkept) fun a b d₂ hkept' ha hb hab => ?_
  refine .bind (hf a b d₂ hab (hkept.trans hkept')) fun _ S d₃ hkept'' hS => .mono .endIndexLoop ?_
  rintro _ _ _ - rfl
  refine ⟨ty, _, _, a, b, S, Nat.le_refl _, Nat.lt_of_lt_of_le hlt hkept'.counter, ha, hb, hS, ?_⟩
  simp [loopSteps, roundSteps, whileSteps, hsize]

/-! ### Optionals -/

theorem hasValue (u : Value) : Adds d (Emit.member u 1) fun f S _ => S = [] ∧ f.IsPart u (memberPath 1) := by
  refine .mono .member ?_
  rintro f _ _ - ⟨rfl, hf, -⟩
  exact ⟨rfl, hf⟩

theorem setHasValue {b : Bool} : Adds d (Lowering.setHasValue v b) fun _ S _ => ∃ e, SetsFlag v b e ∧
    S = [.line (.expression e)] := by
  refine .bind (.hasValue v) ?_
  rintro f _ d₁ - ⟨rfl, hf⟩
  refine .bind .boolType ?_
  rintro ty _ _ - ⟨rfl, rfl⟩
  refine .bind .newValue ?_
  rintro c _ d₂ - ⟨rfl, rfl, -⟩
  refine .mono .assign ?_
  rintro _ _ _ - ⟨e, he, rfl⟩
  exact ⟨e, ⟨f, _, _, hf, fun σ => ⟨.nat b.toNat, rfl, rfl⟩, he⟩, rfl⟩

theorem snapshotHasValues {ty : Ty} (hty : ty.isOptionalPointerLike = false) :
    Adds d (Lowering.snapshotHasValues v w ty) fun r S _ =>
      ∃ (v₁ w₁ : Value) (a b e : C.Expr) (ty₁ ty₂ : CType) (k k' : Nat), v₁.IsPart v (memberPath 1) ∧
        w₁.IsPart w (memberPath 1) ∧ v₁.asInitializer = .ok a ∧ w₁.asInitializer = .ok b ∧
        d.func.counter ≤ k ∧ k < k' ∧ r.1.IsLocal k ∧ r.2.1.IsLocal k' ∧
        r.1.binary "&&" r.2.1 .logicalAnd = .ok e ∧ r.2.2.render = .ok e ∧
        S = [.line (.declare ty₁ k (some a)), .line (.declare ty₂ k' (some b))] := by
  unfold Lowering.snapshotHasValues Lowering.optionalHasValue
  rw [hty]
  refine .bind (.hasValue v) ?_
  rintro v₁ _ d₁ hkept ⟨rfl, hv₁⟩
  refine .bind .copyToLocal ?_
  rintro l _ d₂ hkept₂ ⟨hlt, ⟨_, rfl⟩, a, ha, rfl⟩
  refine .bind (.hasValue w) ?_
  rintro w₁ _ d₃ hkept₃ ⟨rfl, hw₁⟩
  refine .bind .copyToLocal ?_
  rintro r _ d₄ hkept₄ ⟨hlt', ⟨_, rfl⟩, b, hb, rfl⟩
  refine .lift_bind fun e he => .bind .boolType ?_
  rintro ty _ _ - ⟨rfl, rfl⟩
  refine .bind .newValue ?_
  rintro c _ d₅ - ⟨rfl, rfl, -⟩
  exact .pure ⟨v₁, w₁, a, b, e, _, _, _, _, hv₁, hw₁, ha, hb, hkept.counter, Nat.lt_of_lt_of_le hlt hkept₃.counter,
    isLocal_variable, isLocal_variable, he, rfl, rfl⟩

end Adds

end CBackend
