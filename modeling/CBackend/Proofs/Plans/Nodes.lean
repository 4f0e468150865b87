import CBackend.Proofs.Plans.Parts

/-!
# Nodes of plans

What the code of one node of a plan does, if the code of the plans below it does what it should.
-/

namespace CBackend

open IR Lowering
open Memory

variable {m : Module} {d : Draft} {limit depth : Nat} {op : Op} {ℓ : Layout} {v w : Value} {id src lhs rhs : ExprId}
  {kind : ExprKind} {ty : Ty} {c : Category}

/-- The code of a plan copies the object that its source denotes to the destination. -/
def Constructs (limit : Nat) (m : Module) (ℓ : Layout) (src id : ExprId) : Prop :=
  ∀ depth d v w, StandsFor m d src w → Pair limit d ℓ v w →
    Adds d ((walk m depth).expr id (some v)) fun _ S _ => Achieves limit .copy ℓ d.func.counter v w S

/-- The code of a plan swaps the objects that its operands denote, or assigns one to the other. -/
def Combines (limit : Nat) (m : Module) (op : Op) (ℓ : Layout) (lhs rhs id : ExprId) : Prop :=
  ∀ depth d v w, StandsFor m d lhs v → StandsFor m d rhs w → Pair limit d ℓ v w →
    Adds d ((walk m depth).expr id none) fun _ S _ => Achieves limit op ℓ d.func.counter v w S

/-- An expression stands for the bound element with an index. -/
def IR.Module.IsElement (m : Module) (id : ExprId) (k : Nat) : Prop :=
  ∃ ty c, m.Has id (.valueReference k) ty c

/-- Code that does nothing copies an object to itself. -/
theorem Memory.Achieves.copySelf {S : List Step} {n : Nat} (h : Idle limit S) : Achieves limit .copy ℓ n v v S := by
  refine ⟨h.toPiece, fun σ p q hready => ?_⟩
  have hpq := hready.left.designates.unique hready.right.designates
  cases hpq
  exact ⟨σ, h.run σ, .refl _ _ _, .refl _ _ _ _⟩

/-! ### Plans for elements -/

theorem Constructs.withBound (h : Constructs limit m ℓ src id) (hsrc : m.IsElement src 0) (hp : Pair limit d ℓ v w) :
    Adds d ((walk m depth).withBound [w] id (some v)) fun _ S _ => Achieves limit .copy ℓ d.func.counter v w S := by
  obtain ⟨ty, c, hsrc⟩ := hsrc
  refine .withBound fun d₁ hlater hcounter hvalues hbindings => ?_
  rw [hcounter]
  exact h depth d₁ v w (.element hsrc (by rw [hbindings]; rfl)) (hp.later hlater (Nat.le_of_eq hvalues))

theorem Combines.withBound (h : Combines limit m op ℓ lhs rhs id) (hlhs : m.IsElement lhs 1) (hrhs : m.IsElement rhs 0)
    (hp : Pair limit d ℓ v w) : Adds d ((walk m depth).withBound [v, w] id none) fun _ S _ =>
      Achieves limit op ℓ d.func.counter v w S := by
  obtain ⟨ty, c, hlhs⟩ := hlhs
  obtain ⟨ty', c', hrhs⟩ := hrhs
  refine .withBound fun d₁ hlater hcounter hvalues hbindings => ?_
  rw [hcounter]
  exact h depth d₁ v w (.element hlhs (by rw [hbindings]; rfl)) (.element hrhs (by rw [hbindings]; rfl))
    (hp.later hlater (Nat.le_of_eq hvalues))

/-! ### Frames of nodes -/

/-- Code under a comparison of addresses, if asked for. -/
theorem Adds.guardedCode {guard : Bool} {body : Emit Unit}
    (h : ∀ d₁, Untouched d d₁ → Adds d₁ body fun _ S _ => Achieves limit op ℓ d₁.func.counter v w S) :
    Adds d (Lowering.guarded guard v w body) fun _ S _ => Achieves limit op ℓ d.func.counter v w S := by
  refine .mono (.guarded (Q := Achieves limit op ℓ d.func.counter v w) fun d₁ hkept =>
    .mono (h d₁ hkept) fun _ _ _ _ hS => hS.mono hkept.counter) ?_
  rintro _ S _ - ⟨S', hS', rfl | ⟨a, b, ha, hb, rfl⟩⟩
  · exact hS'
  · exact hS'.guarded ha hb

/-- A value is given after code. -/
theorem Adds.yield {x : Emit Unit} {u : Value} {Q : List Step → Prop} (h : Adds d x fun _ S _ => Q S) :
    Adds d (do x; Pure.pure u) fun u' S _ => u' = u ∧ Q S :=
  .bind h fun _ S _ _ hS => .pure ⟨rfl, by simpa using hS⟩

/-- The value of a construction is its destination, so that nothing has to be stored. -/
theorem Constructs.of_kind (hnode : m.Has id kind ty c)
    (h : ∀ depth d v w, StandsFor m d src w → Pair limit d ℓ v w →
      Adds d (exprKind m (walk m depth) ⟨kind, ty, c, {}⟩ (some v)) fun u S _ =>
        u = v ∧ Achieves limit .copy ℓ d.func.counter v w S) : Constructs limit m ℓ src id := by
  intro depth d v w hread hp
  cases depth with
  | zero => exact .throw
  | succ depth =>
    refine .exprNode (Φ := fun _ S => Achieves limit .copy ℓ d.func.counter v w S) hnode (h depth d v w hread hp) ?_
    rintro u S d₁ - ⟨rfl, hS⟩
    unfold storeResult
    dsimp only
    rw [Value.same_self]
    split
    · exact .pure fun n => by simpa using hS.append_idle (.note n)
    · exact .pure fun n => by simpa using hS.append_idle (.note n)

theorem Combines.of_kind (hnode : m.Has id kind ty c)
    (h : ∀ depth d v w, StandsFor m d lhs v → StandsFor m d rhs w → Pair limit d ℓ v w →
      Adds d (exprKind m (walk m depth) ⟨kind, ty, c, {}⟩ none) fun _ S _ =>
        Achieves limit op ℓ d.func.counter v w S) : Combines limit m op ℓ lhs rhs id := by
  intro depth d v w hlhs hrhs hp
  cases depth with
  | zero => exact .throw
  | succ depth =>
    refine .exprNode (Φ := fun _ S => Achieves limit op ℓ d.func.counter v w S) hnode (h depth d v w hlhs hrhs hp) ?_
    intro u S d₁ _ hS
    exact .pure fun n => by simpa using hS.append_idle (.note n)

/-- A construction evaluates its source and writes code for both objects, under a comparison of addresses if the source
is storage that may be the destination. -/
theorem Adds.construct {isCopy : Bool} {body : Value → Value → Emit Unit} (hread : StandsFor m d src w)
    (hw : w.isRvalue = false)
    (h : ∀ d₁, Untouched d d₁ → Adds d₁ (body w v) fun _ S _ => Achieves limit .copy ℓ d₁.func.counter v w S) :
    Adds d (do
      let guard ← needsCopyGuard m src (some v) isCopy
      let source ← Emit.materialize (← (walk m depth).expr src none)
      let result ← resultStorage m (some v) ty
      Lowering.guarded guard result source (body source result)
      Pure.pure result) fun u S _ => u = v ∧ Achieves limit .copy ℓ d.func.counter v w S := by
  refine .lift_bind fun guard _ => .bind (.operand hread) ?_
  rintro _ S d₁ hkept ⟨rfl, hS⟩
  refine .bind (.materialize hw) ?_
  rintro _ _ _ - ⟨rfl, rfl, rfl⟩
  refine .bind (Q := fun u S _ => u = v ∧ S = []) (.pure ⟨rfl, rfl⟩) ?_
  rintro _ _ d₂ hkept₂ ⟨rfl, rfl⟩
  refine .bind (.guardedCode fun d₃ hkept₃ => h d₃ ((hkept.trans hkept₂).trans hkept₃)) fun _ S' d₃ _ hS' => ?_
  refine .pure ⟨rfl, ?_⟩
  simpa using (hS'.mono (hkept.trans hkept₂).counter).idle_append (hS limit)

/-- The operands of a swap or an assignment, and then code for both objects. -/
theorem Adds.operands {α : Type} {f : Value × Value → Emit α} (hlhs : StandsFor m d lhs v) (hrhs : StandsFor m d rhs w)
    (hv : v.isRvalue = false) (hw : w.isRvalue = false)
    (h : ∀ d₁, Untouched d d₁ → Adds d₁ (f (v, w)) fun _ S _ => Achieves limit op ℓ d₁.func.counter v w S) :
    Adds d (Lowering.operandPair m (walk m depth) lhs rhs >>= f) fun _ S _ =>
      Achieves limit op ℓ d.func.counter v w S := by
  refine .bind (.operandPair hlhs hv hrhs hw) ?_
  rintro _ S d₁ hkept ⟨rfl, hS⟩
  refine .mono (h d₁ hkept) fun _ S' _ _ hS' => ?_
  exact (hS'.mono hkept.counter).idle_append (hS limit)

theorem Adds.assignOperands {α : Type} {f : Value × Value × Bool → Emit α} (hlhs : StandsFor m d lhs v)
    (hrhs : StandsFor m d rhs w) (hv : v.isRvalue = false) (hw : w.isRvalue = false)
    (h : ∀ guard d₁, Untouched d d₁ → Adds d₁ (f (v, w, guard)) fun _ S _ => Achieves limit op ℓ d₁.func.counter v w S) :
    Adds d (assignOperands m (walk m depth) lhs rhs >>= f) fun _ S _ =>
      Achieves limit op ℓ d.func.counter v w S := by
  refine .bind (Q := fun u S _ => (∃ guard, u = (v, w, guard)) ∧ ∀ limit, Idle limit S) ?_ ?_
  · refine .lift_bind fun guard _ => .bind (.operandPair hrhs hw hlhs hv) ?_
    rintro _ S d₁ hkept ⟨rfl, hS⟩
    exact .pure ⟨⟨guard, rfl⟩, fun limit => by simpa using hS limit⟩
  · rintro _ S d₁ hkept ⟨⟨guard, rfl⟩, hS⟩
    refine .mono (h guard d₁ hkept) fun _ S' _ _ hS' => ?_
    exact (hS'.mono hkept.counter).idle_append (hS limit)

/-! ### Leaves -/

/-- The bytes are copied, unless source and destination are the same. -/
theorem Constructs.leaf (hnode : m.Has id kind ty c)
    (hkind : kind = .trivialCopyConstruct src ∨ kind = .trivialRelocate src) : Constructs limit m .leaf src id := by
  intro depth d v w hread hp
  cases depth with
  | zero => exact .throw
  | succ depth =>
    have hcopy : Adds d (exprKind m (walk m depth) ⟨kind, ty, c, {}⟩ (some v)) fun u S _ =>
        u = w ∧ Idle limit S := by
      have htrivial : Adds d (trivialCopy (walk m depth) src (some v)) fun u S _ =>
          u = w ∧ Idle limit S := by
        refine .bind (.operand hread) ?_
        rintro _ S d₁ - ⟨rfl, hS⟩
        exact .pure ⟨rfl, by simpa using hS limit⟩
      rcases hkind with rfl | rfl <;> exact htrivial
    refine .exprNode (Φ := fun _ S => Achieves limit .copy .leaf d.func.counter v w S) hnode hcopy ?_
    rintro u S d₁ - ⟨rfl, hS⟩
    have hnone : u.isNone = false := by
      obtain ⟨a, ha, -⟩ := hp.right.numbered
      simp [Value.isNone, ha]
    unfold storeResult
    dsimp only
    rw [hnone]
    cases hsame : u.same v with
    | true =>
      obtain rfl := hp.same (.inr hsame)
      exact .pure fun n => .copySelf (by simpa using hS.append (.note n))
    | false =>
      refine .bind .assign ?_
      rintro _ _ d₂ - ⟨e, he, rfl⟩
      refine .pure fun n => ?_
      simpa using ((Achieves.leafCopy he).append_idle (.note n)).idle_append hS

/-- Optional pointers and references are copied as a whole. -/
theorem Constructs.pointer {valueExpr : ExprId} (hnode : m.Has id kind ty c)
    (hkind : kind = .optionalCopyConstruct src valueExpr ∨ kind = .optionalMoveConstruct src valueExpr)
    (hty : ty.isOptionalPointerLike = true) : Constructs limit m .leaf src id := by
  refine .of_kind hnode fun depth d v w hread hp => ?_
  have hcopy {isCopy : Bool} : Adds d (optionalConstruct m (walk m depth) src valueExpr ty (some v) isCopy)
      fun u S _ => u = v ∧ Achieves limit .copy .leaf d.func.counter v w S := by
    unfold optionalConstruct
    rw [if_pos hty]
    refine .bind (.operand hread) ?_
    rintro _ S d₁ - ⟨rfl, hS⟩
    refine .bind .assign ?_
    rintro _ _ d₂ - ⟨e, he, rfl⟩
    refine .pure ⟨rfl, ?_⟩
    simpa using (Achieves.leafCopy he).idle_append (hS limit)
  rcases hkind with rfl | rfl <;> exact hcopy

/-- The bytes are swapped through a local variable. -/
theorem Adds.swapBytes : Adds d (swapBytes v w) fun _ S _ => Achieves limit .swap .leaf d.func.counter v w S := by
  refine .guardedCode fun d₁ _ => .bind .copyToLocal ?_
  rintro temp _ d₂ - ⟨-, ⟨_, rfl⟩, a, ha, rfl⟩
  refine .bind .assign ?_
  rintro _ _ d₃ - ⟨e, he, rfl⟩
  refine .mono .assign ?_
  rintro _ _ _ - ⟨e', he', rfl⟩
  exact .leafSwap (Nat.le_refl _) isLocal_variable ha he he'

theorem Combines.leafSwap (hnode : m.Has id (.trivialSwap lhs rhs) ty c) : Combines limit m .swap .leaf lhs rhs id := by
  refine .of_kind hnode fun depth d v w hlhs hrhs hp => ?_
  have hswap : Adds d (trivialSwap m (walk m depth) lhs rhs) fun _ S _ =>
      Achieves limit .swap .leaf d.func.counter v w S :=
    .operands hlhs hrhs hp.left.lvalue hp.right.lvalue fun d₁ _ => .swapBytes
  exact .mono (.yield hswap) fun _ _ _ _ h => h.2

theorem Adds.memberPlans {part : Nat → Layout} {ids : List ExprId} {f : ExprId × Nat → Emit Unit}
    (h : ∀ i id, ids[i]? = some id → ∀ d₁, Untouched d d₁ → Adds d₁ (f (id, i)) fun _ S _ => ∃ a b,
      a.IsPart v (memberPath i) ∧ b.IsPart w (memberPath i) ∧ Achieves limit op (part i) d₁.func.counter a b S) :
    Adds d (ids.zipIdx.forM f) fun _ S _ => Achieves limit op (.record ids.length part) d.func.counter v w S := by
  have hnil : AchievesMembers limit op part 0 d.func.counter v w [] := .nil
  refine .mono (.members hnil (Nat.le_refl _) fun i id hi d₁ hkept => ?_) fun _ S _ _ hS => ?_
  · rw [Nat.zero_add]
    exact h i id hi d₁ hkept
  · rw [Nat.zero_add] at hS
    exact hS.record

section

variable {part : Nat → Layout} {ids : List ExprId} {srcs ls rs : Nat → ExprId}

theorem Constructs.members (hnode : m.Has id kind ty c)
    (hkind : kind = .aggregateCopyConstruct src ids ∨ kind = .aggregateMoveConstruct src ids)
    (hsrcs : ∀ i, i < ids.length → m.IsElement (srcs i) 0)
    (h : ∀ i id', ids[i]? = some id' → Constructs limit m (part i) (srcs i) id') :
    Constructs limit m (.record ids.length part) src id := by
  refine .of_kind hnode fun depth d v w hread hp => ?_
  have hconstruct {isCopy : Bool} : Adds d (aggregateConstruct m (walk m depth) src ids ty (some v) isCopy)
      fun u S _ => u = v ∧ Achieves limit .copy (.record ids.length part) d.func.counter v w S := by
    refine .construct hread hp.right.lvalue fun d₁ hkept => .memberPlans fun i id' hi d₂ hkept' => ?_
    obtain ⟨hlt, -⟩ := List.getElem?_eq_some_iff.1 hi
    have hp' := hp.kept (hkept.trans hkept')
    refine .memberPair hp'.right.lvalue hp'.left.lvalue (hp'.rightLayout.hasMember_record hlt)
      (hp'.leftLayout.hasMember_record hlt) (hp'.sizes i hlt) fun b a d₃ hkept₃ hb ha hab => ?_
    refine .mono ((h i id' hi).withBound (hsrcs i hlt) hab.symm) fun _ S _ _ hS => ?_
    exact ⟨a, b, ha, hb, hS.mono hkept₃.counter⟩
  rcases hkind with rfl | rfl <;> exact hconstruct

end

/-! ### Arrays -/

section

variable {size : Nat} {elemExpr s l r : ExprId}

theorem Constructs.elements (hnode : m.Has id kind ty c)
    (hkind : kind = .arrayCopyConstruct src elemExpr ∨ kind = .arrayMoveConstruct src elemExpr) (hs : m.IsElement s 0)
    (h : Constructs limit m ℓ s elemExpr) : Constructs limit m (.array size ℓ) src id := by
  refine .of_kind hnode fun depth d v w hread hp => ?_
  have hconstruct {isCopy : Bool} : Adds d (arrayConstruct m (walk m depth) src elemExpr ty (some v) isCopy)
      fun u S _ => u = v ∧ Achieves limit .copy (.array size ℓ) d.func.counter v w S := by
    refine .construct hread hp.right.lvalue fun d₁ hkept => ?_
    refine .mono (.elements (Q := fun n b a S => Achieves limit .copy ℓ n a b S) (hp.kept hkept).symm (.inr rfl)
      fun b a d₂ hab _ => h.withBound hs hab.symm) ?_
    rintro _ _ _ - ⟨ty, j, n, b, a, S, hj, hn, hb, ha, hS, rfl⟩
    exact hS.array hj hn hp.sizes.1 ha hb
  rcases hkind with rfl | rfl <;> exact hconstruct

end

/-! ### Optionals -/

/-- An optional that is not stored as a pointer has a payload of its own. -/
theorem IR.Ty.isOptionalReference_eq_false (h : ty.isOptionalPointerLike = false) : ty.isOptionalReference = false := by
  unfold Ty.isOptionalReference
  split
  · cases h
  · rfl

theorem optionalHasValue_eq (h : ty.isOptionalPointerLike = false) (u : Value) :
    optionalHasValue u ty = Emit.member u 1 := by
  rw [optionalHasValue, h]
  rfl

theorem optionalValue_eq (h : ty.isOptionalPointerLike = false) (u : Value) :
    optionalValue u ty = Emit.member u 0 := by
  rw [optionalValue, Ty.isOptionalReference_eq_false h, h]
  rfl

section

variable {valueExpr valueSwap lhsMove rhsMove valueConstruct valueDestruct s s' l r : ExprId} {ty' : Ty}

theorem Constructs.optional (hnode : m.Has id kind ty c)
    (hkind : kind = .optionalCopyConstruct src valueExpr ∨ kind = .optionalMoveConstruct src valueExpr)
    (hty : ty.isOptionalPointerLike = false) (hs : m.IsElement s 0) (h : Constructs limit m ℓ s valueExpr) :
    Constructs limit m (.optional ℓ) src id := by
  refine .of_kind hnode fun depth d v w hread hp => ?_
  have hconstruct {isCopy : Bool} :
      Adds d (optionalConstruct m (walk m depth) src valueExpr ty (some v) isCopy) fun u S _ =>
        u = v ∧ Achieves limit .copy (.optional ℓ) d.func.counter v w S := by
    unfold optionalConstruct
    rw [if_neg (by simp [hty])]
    refine .construct hread hp.right.lvalue fun d₁ hkept => ?_
    simp only [optionalHasValue_eq hty, optionalValue_eq hty]
    refine .bind (.hasValue w) ?_
    rintro w₁ _ d₂ hkept₂ ⟨rfl, hw₁⟩
    refine .bind (.hasValue v) ?_
    rintro v₁ _ d₃ hkept₃ ⟨rfl, hv₁⟩
    refine .bind .assign ?_
    rintro _ _ d₄ hkept₄ ⟨e, he, rfl⟩
    refine .bind .beginIf ?_
    rintro _ _ d₅ hkept₅ ⟨e', he', rfl⟩
    have hlater := ((hkept₂.trans hkept₃).trans hkept₄).trans hkept₅
    have hp' := hp.kept (hkept.trans hlater)
    refine .memberPair hp'.right.lvalue hp'.left.lvalue hp'.rightLayout.hasMember_payload
      hp'.leftLayout.hasMember_payload hp'.sizes fun w₀ v₀ d₆ hkept₆ hw₀ hv₀ hab => ?_
    refine .bind (h.withBound hs hab.symm) fun _ S d₇ _ hS => .mono .closeBlock ?_
    rintro _ _ _ - rfl
    exact (hS.mono (hlater.trans hkept₆).counter).optionalCopy hv₀ hw₀ hv₁ hw₁ he he'
  rcases hkind with rfl | rfl <;> exact hconstruct

/-- Destroying a value of a trivial type does nothing. -/
theorem Adds.destruct {call : ExprId} {u : Value} (hnode : m.Has call (.destructValue s none) ty c) (hs : m.IsElement s 0) :
    Adds d ((walk m depth).withBound [u] call none) fun _ S _ => ∀ limit, Idle limit S := by
  obtain ⟨tyₛ, cₛ, hs⟩ := hs
  refine .withBound fun d₁ _ _ _ hbindings => ?_
  cases depth with
  | zero => exact .throw
  | succ depth =>
    have hdestruct : Adds d₁ (exprKind m (walk m depth) ⟨.destructValue s none, ty, c, {}⟩ none)
        fun _ S _ => ∀ limit, Idle limit S := by
      have hread : StandsFor m d₁ s u := .element hs (by rw [hbindings]; rfl)
      refine .bind (.operand hread) ?_
      rintro _ S d₂ - ⟨rfl, hS⟩
      exact .pure (by simpa using hS)
    refine .exprNode (Φ := fun _ S => ∀ limit, Idle limit S) hnode hdestruct fun u' S d₂ _ hS => ?_
    exact .pure fun n limit => by simpa using (hS limit).append (.note n)

end

end CBackend
