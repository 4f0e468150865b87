import CBackend.Proofs.Memory.Layouts

/-!
# Code that swaps and copies optionals

An optional is a payload and a flag. To swap or to assign optionals, the code reads both flags first and then
works in the branch that they select: on both payloads, on the only one, or on none.
-/

namespace CBackend

open Flow

namespace Memory

variable {limit : Nat} {op : Op} {ℓ : Layout} {n n' k k' : Nat} {v w : Value} {S S' : List Step}
  {p q x y : Location} {σ τ υ : Store} {e e' : C.Expr} {level : C.Precedence} {b : Bool} {f v₀ v₁ w₀ w₁ : Value}
  {ty ty' : C.CType}

/-! ### Flags -/

/-- Whether the flag of the optional at a place is set. -/
def Store.flag (σ : Store) (p : Location) : Bool :=
  (σ (p.member 1)).isTrue

/-- The store after the flag of the optional at a place is set or cleared. -/
def Store.setFlag (σ : Store) (p : Location) (b : Bool) : Store :=
  σ.write (p.member 1) fun _ => .number b.toNat

theorem apart_member {i j : Nat} (h : i ≠ j) (p : Location) : (p.member i).Apart (p.member j) :=
  Location.apart_extend (separated_memberPath i j h)

/-- Equality of optionals in terms of what their places hold. -/
theorem same_optional_iff : (Layout.optional ℓ).Same (τ.read p) (σ.read q) ↔
    τ.flag p = σ.flag q ∧ (σ.flag q = true → ℓ.Same (τ.read (p.member 0)) (σ.read (q.member 0))) := by
  rw [Store.read_extend, Store.read_extend]
  exact Iff.rfl

namespace Store

@[simp]
theorem flag_setFlag (σ : Store) (p : Location) (b : Bool) : (σ.setFlag p b).flag p = b := by
  cases b <;> simp [flag, setFlag, Datum.isTrue]

theorem flag_of_read_eq (h : τ.read p = σ.read p) : τ.flag p = σ.flag p :=
  congrArg Tree.flag h

theorem read_setFlag_of_apart (h : p.Apart q) (b : Bool) : (σ.setFlag p b).read q = σ.read q :=
  read_write_of_apart (h.of_holds (p.holds_extend _) q.holds_refl)

theorem read_setFlag_payload (σ : Store) (p : Location) (b : Bool) :
    (σ.setFlag p b).read (p.member 0) = σ.read (p.member 0) :=
  read_write_of_apart (apart_member (by decide) p)

end Store

theorem ChangesOnly.setFlag {ps : List Location} (hp : p ∈ ps) (b : Bool) : ChangesOnly n ps σ (σ.setFlag p b) :=
  .write_part hp (p.holds_extend _) _

/-- An assignment sets or clears the flag of an optional. -/
def SetsFlag (v : Value) (b : Bool) (e : C.Expr) : Prop :=
  ∃ (f c : Value) (level : C.Precedence), f.IsPart v (memberPath 1) ∧ (∀ σ, c.Denotes σ (.data fun _ => .number b.toNat)) ∧
    f.binary "=" c level = .ok e

theorem Runs.setFlag (hv : v.Designates σ p) (he : SetsFlag v b e) :
    Runs limit false [.line (.expression e)] σ (σ.setFlag p b) := by
  obtain ⟨f, c, level, hf, hc, he⟩ := he
  refine .step rfl ?_
  rw [assign_effect (hf σ p hv) (hc σ) he]
  rfl

/-- The condition on the flag of an optional. -/
theorem holds?_flag (hv : v.Designates σ p) (hf : f.IsPart v (memberPath 1)) (he : f.render = .ok e) :
    holds? σ e = some (σ.flag p) := by
  refine holds?_of_eval ((hf σ p hv).eval_eq he) ?_
  rw [Denoted.datum, Denoted.tree_place (p.isArray_member 1), Store.read_nil]

/-! ### Construction -/

/-- The flag is copied, and then the payload if there is one. -/
theorem Achieves.optionalCopy (hpayload : Achieves limit .copy ℓ n v₀ w₀ S) (hv₀ : v₀.IsPart v (memberPath 0))
    (hw₀ : w₀.IsPart w (memberPath 0)) (hv₁ : v₁.IsPart v (memberPath 1)) (hw₁ : w₁.IsPart w (memberPath 1))
    (he : v₁.binary "=" w₁ level = .ok e) (he' : w₁.render = .ok e') :
    Achieves limit .copy (.optional ℓ) n v w (.line (.expression e) :: ifSteps e' S) := by
  refine ⟨(Piece.step rfl).append hpayload.ifSteps, fun σ p q hready => ?_⟩
  let σ₁ := σ.write (p.member 1) (σ.read (q.member 1))
  have h₁ : ChangesOnly n [p] σ σ₁ := .write_part (by simp) (p.holds_extend _) _
  have hassign : Runs limit false [.line (.expression e)] σ σ₁ :=
    .assign (hv₁ σ p hready.left.designates) (hw₁ σ q hready.right.designates) (q.isArray_member 1) he
  have hflag : σ₁.flag p = σ.flag q := by
    simp [Store.flag, σ₁, Store.read_nil]
  have hflag' : σ₁.flag q = σ.flag q := by
    rcases hready.aligned with rfl | hpq
    · exact hflag
    · exact Store.flag_of_read_eq (Store.read_write_of_apart (hpq.of_holds (p.holds_extend _) q.holds_refl))
  have hcond := holds?_flag (hready.right σ₁ h₁) hw₁ he'
  rw [hflag'] at hcond
  cases hq : σ.flag q with
  | false =>
    rw [hq] at hcond
    refine ⟨σ₁, hassign.append (.ifFalse hpayload.nested hcond .nil) hpayload.ifSteps.start, h₁, ?_, by simp⟩
    exact same_optional_iff.2 ⟨hflag, by simp [hq]⟩
  | true =>
    rw [hq] at hcond
    have hready' := (hready.later h₁ (Nat.le_refl n)).part (fun r => r.isArray_member 0) hv₀ hw₀
    obtain ⟨τ, hrun, hτ, hdone, -⟩ := hpayload.run σ₁ _ _ hready'
    refine ⟨τ, hassign.append (.ifTrue hpayload.nested hcond hrun .nil) hpayload.ifSteps.start,
      h₁.trans (hτ.mono (Nat.le_refl n) (Op.written_part .copy p q (memberPath 0))), ?_, by simp⟩
    have hkept : τ.read (p.member 1) = σ₁.read (p.member 1) :=
      hτ.read_eq hready.leftOld (by simpa [Op.written] using apart_member (by decide) p)
    have hsource : σ₁.read (q.member 0) = σ.read (q.member 0) :=
      Store.read_write_of_apart (hready.aligned.apart_extend (separated_memberPath 1 0 (by decide)))
    refine same_optional_iff.2 ⟨?_, fun _ => ?_⟩
    · rw [← hflag, Store.flag, Store.eq_of_read_eq hkept]
      rfl
    · rw [← hsource]
      exact hdone

/-! ### Snapshots of flags -/

theorem holds?_local (hf : f.IsLocal k) (he : f.render = .ok e) :
    holds? σ e = some (σ (.ofLocal k)).isTrue := by
  refine holds?_of_eval ((hf σ).eval_eq he) ?_
  rw [Denoted.datum, Denoted.tree_place (Location.isArray_ofLocal k), Store.read_nil]

theorem holds?_both {f' : Value} (hf : f.IsLocal k) (hf' : f'.IsLocal k') (he : f.binary "&&" f' level = .ok e) :
    holds? σ e = some ((σ (.ofLocal k)).isTrue && (σ (.ofLocal k')).isTrue) := by
  obtain ⟨a, b, pa, pb, ha, hb, rfl⟩ := Value.exists_of_binary he
  have hread (j : Nat) : (Denoted.place (.ofLocal j)).datum σ = σ (.ofLocal j) := by
    rw [Denoted.datum, Denoted.tree_place (Location.isArray_ofLocal j), Store.read_nil]
  have heval : eval σ (.binary "&&" (.parenIf pa a) (.parenIf pb b)) =
      some (truthValue ((σ (.ofLocal k)).isTrue && (σ (.ofLocal k')).isTrue)) := by
    simp [eval, (hf σ).eval_eq ha, (hf' σ).eval_eq hb, hread, operate?]
  rw [holds?_of_eval heval rfl, isTrue_truthValue]

/-- The store after a local variable gets the flag of the optional at a place. -/
def Store.snapshot (σ : Store) (k : Nat) (p : Location) : Store :=
  σ.write (.ofLocal k) (σ.read (p.member 1))

namespace Store

theorem snapshot_ofLocal (σ : Store) (k : Nat) (p : Location) : (σ.snapshot k p (.ofLocal k)).isTrue = σ.flag p := by
  rw [snapshot, write_self, read_nil, flag]

theorem snapshot_ofLocal_of_ne (σ : Store) (h : k' ≠ k) (p : Location) :
    σ.snapshot k' p (.ofLocal k) = σ (.ofLocal k) :=
  eq_of_read_eq (read_write_of_apart (Location.apart_of_object_ne (by simpa [Location.ofLocal] using h)))

theorem read_snapshot (hq : ¬ q.IsNew n) (hk : n ≤ k) : (σ.snapshot k p).read q = σ.read q :=
  read_write_of_apart (Location.apart_ofLocal hq hk).symm

end Store

theorem Runs.snapshot (hv : v.Designates σ p) (hf : f.IsPart v (memberPath 1)) (he : f.asInitializer = .ok e) :
    Runs limit false [.line (.declare ty k (some e))] σ (σ.snapshot k p) :=
  .declare (hf σ p hv) (p.isArray_member 1) he

/-- Two local variables tell whether two optionals hold a payload. -/
structure Snapshots (k k' : Nat) (p q : Location) (σ : Store) : Prop where
  left : (σ (.ofLocal k)).isTrue = σ.flag p
  right : (σ (.ofLocal k')).isTrue = σ.flag q

/-- Code after the flags have been read. -/
theorem Achieves.ofSnapshots (hS : Piece S) (hk : n ≤ k) (hk' : k < k') (hv₁ : v₁.IsPart v (memberPath 1))
    (hw₁ : w₁.IsPart w (memberPath 1)) (he : v₁.asInitializer = .ok e) (he' : w₁.asInitializer = .ok e')
    (h : ∀ σ p q, Ready op n v w p q σ → Snapshots k k' p q σ →
      ∃ τ, Runs limit false S σ τ ∧ ChangesOnly n (op.written p q) σ τ ∧ op.Done ℓ p q σ τ) :
    Achieves limit op ℓ n v w
      (.line (.declare ty k (some e)) :: .line (.declare ty' k' (some e')) :: S) := by
  refine ⟨(Piece.step rfl).append ((Piece.step rfl).append hS), fun σ p q hready => ?_⟩
  have hnk' : n ≤ k' := by omega
  have h₁ : ChangesOnly n (op.written p q) σ (σ.snapshot k p) := .write_ofLocal hk _
  have h₂ : ChangesOnly n (op.written p q) σ ((σ.snapshot k p).snapshot k' q) := h₁.trans (.write_ofLocal hnk' _)
  have hrun₁ : Runs limit false [.line (.declare ty k (some e))] σ (σ.snapshot k p) :=
    .snapshot hready.left.designates hv₁ he
  have hrun₂ : Runs limit false [.line (.declare ty' k' (some e'))] (σ.snapshot k p) _ :=
    .snapshot (hready.right _ h₁) hw₁ he'
  have hread {r : Location} (hr : ¬ r.IsNew n) : ((σ.snapshot k p).snapshot k' q).read r = σ.read r :=
    (Store.read_snapshot hr hnk').trans (Store.read_snapshot hr hk)
  have hp := hread hready.leftOld
  have hq := hread hready.rightOld
  have hsnapshots : Snapshots k k' p q ((σ.snapshot k p).snapshot k' q) := by
    refine ⟨?_, ?_⟩
    · rw [Store.snapshot_ofLocal_of_ne _ (by omega), Store.snapshot_ofLocal, Store.flag_of_read_eq hp]
    · rw [Store.snapshot_ofLocal, Store.flag_of_read_eq hq]
      exact Store.flag_of_read_eq (Store.read_snapshot hready.rightOld hk)
  obtain ⟨τ, hrun', hτ, hdone⟩ := h _ p q (hready.later h₂ (Nat.le_refl n)) hsnapshots
  exact ⟨τ, hrun₁.append (hrun₂.append hrun' hS.start) Bool.false_ne_true, h₂.trans hτ,
    hdone.congr hp.symm hq.symm rfl rfl⟩

/-! ### Branches -/

/-- A conditional with three branches. -/
def chainSteps (e₁ e₂ e₃ : C.Expr) (A B D : List Step) : List Step :=
  .line (.ifThen e₁) :: .line .openBlock :: (A ++ .line .closeBlock ::
    .line (.elseIf e₂) :: .line .openBlock :: (B ++ .line .closeBlock ::
      .line (.elseIf e₃) :: .line .openBlock :: (D ++ [.line .closeBlock])))

section

variable {e₁ e₂ e₃ : C.Expr} {A B D : List Step} (hA : Piece A) (hB : Piece B) (hD : Piece D)

include hA hB hD

theorem Piece.chainSteps : Piece (chainSteps e₁ e₂ e₃ A B D) :=
  ⟨.head rfl (.block hA.nested (.head rfl (.block hB.nested (.head rfl (.block hD.nested .nil))))),
    Bool.false_ne_true⟩

/-- What a conditional on two flags does: both are set, the first one alone, the second one alone, or none. -/
theorem exists_runs_chainSteps {a : Bool} {Φ : Store → Prop} (h₁ : holds? σ e₁ = some (a && b))
    (h₂ : holds? σ e₂ = some a) (h₃ : holds? σ e₃ = some b)
    (hboth : a = true → b = true → ∃ τ, Runs limit false A σ τ ∧ Φ τ)
    (hleft : a = true → b = false → ∃ τ, Runs limit false B σ τ ∧ Φ τ)
    (hright : a = false → b = true → ∃ τ, Runs limit false D σ τ ∧ Φ τ) (hnone : a = false → b = false → Φ σ) :
    ∃ τ, Runs limit false (chainSteps e₁ e₂ e₃ A B D) σ τ ∧ Φ τ := by
  cases a <;> cases b
  · refine ⟨σ, .ifFalse hA.nested h₁ (.elseIfFalse hB.nested h₂ (.elseIfFalse hD.nested h₃ .nil)), hnone rfl rfl⟩
  · obtain ⟨τ, hrun, hτ⟩ := hright rfl rfl
    exact ⟨τ, .ifFalse hA.nested h₁ (.elseIfFalse hB.nested h₂ (.elseIfTrue hD.nested h₃ hrun .nil)), hτ⟩
  · obtain ⟨τ, hrun, hτ⟩ := hleft rfl rfl
    exact ⟨τ, .ifFalse hA.nested h₁ (.elseIfTrue hB.nested h₂ hrun (.elseIfTaken hD.nested .nil)), hτ⟩
  · obtain ⟨τ, hrun, hτ⟩ := hboth rfl rfl
    exact ⟨τ, .ifTrue hA.nested h₁ hrun (.elseIfTaken hB.nested (.elseIfTaken hD.nested .nil)), hτ⟩

end

/-- Optionals are aligned but not the same if only one of them holds a payload. -/
theorem Ready.apart_of_flag_ne (h : Ready op n v w p q σ) (hflag : σ.flag p ≠ σ.flag q) : p.Apart q :=
  h.aligned.resolve_left fun hpq => hflag (by rw [hpq])

/-- Code for the payloads when both optionals hold one. -/
theorem Achieves.payloads (h : Achieves limit op ℓ n v₀ w₀ S) (hv₀ : v₀.IsPart v (memberPath 0))
    (hw₀ : w₀.IsPart w (memberPath 0)) (hready : Ready op n v w p q σ) (hflag : σ.flag p = σ.flag q) :
    ∃ τ, Runs limit false S σ τ ∧ ChangesOnly n (op.written p q) σ τ ∧ op.Done (.optional ℓ) p q σ τ := by
  obtain ⟨τ, hrun, hτ, hdone⟩ := h.run σ _ _ (hready.part (fun r => r.isArray_member 0) hv₀ hw₀)
  have happart (r : Location) (hr : r ∈ op.written (p.extend (memberPath 0)) (q.extend (memberPath 0))) :=
    Op.apart_of_mem_written separated_memberPath hready.aligned (show (0 : Nat) ≠ 1 by decide) hr
  have hp : τ.flag p = σ.flag p :=
    congrArg Datum.isTrue (Store.eq_of_read_eq (hτ.read_eq hready.leftOld fun r hr => (happart r hr).1))
  have hq : τ.flag q = σ.flag q :=
    congrArg Datum.isTrue (Store.eq_of_read_eq (hτ.read_eq hready.rightOld fun r hr => (happart r hr).2))
  refine ⟨τ, hrun, hτ.mono (Nat.le_refl n) (op.written_part p q (memberPath 0)), ?_, fun hop => ?_⟩
  · exact same_optional_iff.2 ⟨hp.trans hflag, fun _ => hdone.1⟩
  · exact same_optional_iff.2 ⟨hq.trans hflag.symm, fun _ => hdone.2 hop⟩

/-- The payload of one optional is copied to another one. -/
theorem Achieves.payload (h : Achieves limit .copy ℓ n v₀ w₀ S) (hv₀ : v₀.IsPart v (memberPath 0))
    (hw₀ : w₀.IsPart w (memberPath 0)) (hready : Ready .copy n v w p q σ) :
    ∃ τ, Runs limit false S σ τ ∧ ChangesOnly n [p] σ τ ∧
      ℓ.Same (τ.read (p.member 0)) (σ.read (q.member 0)) := by
  obtain ⟨τ, hrun, hτ, hdone, -⟩ := h.run σ _ _ (hready.part (fun r => r.isArray_member 0) hv₀ hw₀)
  exact ⟨τ, hrun, hτ.mono (Nat.le_refl n) (Op.written_part .copy p q (memberPath 0)), hdone⟩

/-! ### Swap -/

/-- The flags and payloads of two optionals after both flags have been assigned to. -/
theorem Store.setFlags_spec (h : p.Apart q) (b c : Bool) :
    ((σ.setFlag p b).setFlag q c).flag p = b ∧ ((σ.setFlag p b).setFlag q c).flag q = c ∧
      ((σ.setFlag p b).setFlag q c).read (p.member 0) = σ.read (p.member 0) ∧
      ((σ.setFlag p b).setFlag q c).read (q.member 0) = σ.read (q.member 0) := by
  refine ⟨?_, flag_setFlag _ _ _, ?_, ?_⟩
  · rw [flag_of_read_eq (read_setFlag_of_apart h.symm c), flag_setFlag]
  · rw [read_setFlag_of_apart (h.symm.of_holds q.holds_refl (p.holds_extend _)), read_setFlag_payload]
  · rw [read_setFlag_payload, read_setFlag_of_apart (h.of_holds p.holds_refl (q.holds_extend _))]

/-- Two optionals are exchanged when the only payload has moved over and the flags with it. -/
theorem same_of_moved (hx : σ.flag x = true) (hy : σ.flag y = false) (hx' : τ.flag x = false)
    (hy' : τ.flag y = true) (h : ℓ.Same (τ.read (y.member 0)) (σ.read (x.member 0))) :
    (Layout.optional ℓ).Same (τ.read x) (σ.read y) ∧ (Layout.optional ℓ).Same (τ.read y) (σ.read x) :=
  ⟨same_optional_iff.2 ⟨hx'.trans hy.symm, by simp [hy]⟩, same_optional_iff.2 ⟨hy'.trans hx.symm, fun _ => h⟩⟩

/-- The flags of two optionals are assigned to after other code. -/
theorem Ready.runs_setFlags {c : Bool} (hready : Ready .swap n v w p q σ) (hrun : Runs limit false S σ τ)
    (hτ : ChangesOnly n [p, q] σ τ) (he : SetsFlag v b e) (he' : SetsFlag w c e') :
    Runs limit false (S ++ [.line (.expression e), .line (.expression e')]) σ ((τ.setFlag p b).setFlag q c) ∧
      ChangesOnly n [p, q] σ ((τ.setFlag p b).setFlag q c) := by
  have h₁ : ChangesOnly n [p, q] σ (τ.setFlag p b) := hτ.trans (.setFlag (by simp) b)
  have hrun₁ : Runs limit false [.line (.expression e)] τ (τ.setFlag p b) := .setFlag (hready.left τ hτ) he
  have hrun₂ : Runs limit false [.line (.expression e')] (τ.setFlag p b) _ := .setFlag (hready.right _ h₁) he'
  exact ⟨hrun.append (hrun₁.append hrun₂ Bool.false_ne_true) Bool.false_ne_true, h₁.trans (.setFlag (by simp) c)⟩

variable {l r : Value} {A B D : List Step} {a b e₁ e₂ e₃ : C.Expr} (hk : n ≤ k) (hk' : k < k')
  (hright : Achieves limit .copy ℓ n v₀ w₀ D) (hv₀ : v₀.IsPart v (memberPath 0)) (hw₀ : w₀.IsPart w (memberPath 0))
  (hv₁ : v₁.IsPart v (memberPath 1)) (hw₁ : w₁.IsPart w (memberPath 1)) (hl : l.IsLocal k) (hr : r.IsLocal k')
  (ha : v₁.asInitializer = .ok a) (hb : w₁.asInitializer = .ok b) (he₁ : l.binary "&&" r level = .ok e₁)
  (he₂ : l.render = .ok e₂) (he₃ : r.render = .ok e₃)

include hk hk' hright hv₀ hw₀ hv₁ hw₁ hl hr ha hb he₁ he₂ he₃

/-- Optionals are swapped by swapping both payloads or by moving the only one. -/
theorem Achieves.optionalSwap {f₀ f₁ g₀ g₁ : C.Expr} (hswap : Achieves limit .swap ℓ n v₀ w₀ A)
    (hleft : Achieves limit .copy ℓ n w₀ v₀ B) (hf₀ : SetsFlag v false f₀) (hf₁ : SetsFlag w true f₁)
    (hg₁ : SetsFlag v true g₁) (hg₀ : SetsFlag w false g₀) :
    Achieves limit .swap (.optional ℓ) n v w
      (.line (.declare ty k (some a)) :: .line (.declare ty' k' (some b)) ::
        chainSteps e₁ e₂ e₃ A (B ++ [.line (.expression f₀), .line (.expression f₁)])
          (D ++ [.line (.expression g₁), .line (.expression g₀)])) := by
  have hB := hleft.toPiece.append ((Piece.step (s := .line (.expression f₀)) rfl).append
    (.step (s := .line (.expression f₁)) rfl))
  have hD := hright.toPiece.append ((Piece.step (s := .line (.expression g₁)) rfl).append
    (.step (s := .line (.expression g₀)) rfl))
  refine .ofSnapshots (.chainSteps hswap.toPiece hB hD) hk hk' hv₁ hw₁ ha hb fun σ p q hready hsnap => ?_
  have h₁ := holds?_both (σ := σ) hl hr he₁
  have h₂ := holds?_local (σ := σ) hl he₂
  have h₃ := holds?_local (σ := σ) hr he₃
  rw [hsnap.left] at h₂
  rw [hsnap.right] at h₃
  rw [hsnap.left, hsnap.right] at h₁
  refine exists_runs_chainSteps hswap.toPiece hB hD h₁ h₂ h₃ ?_ ?_ ?_ ?_
  · exact fun hp hq => hswap.payloads hv₀ hw₀ hready (hp.trans hq.symm)
  · intro hp hq
    have hpq := hready.apart_of_flag_ne (by simp [hp, hq])
    obtain ⟨τ, hrun, hτ, hsame⟩ := hleft.payload hw₀ hv₀ hready.exchange.copy
    have hτ' : ChangesOnly n [p, q] σ τ := hτ.mono (Nat.le_refl n) (by simp [Location.holds_refl])
    obtain ⟨hrun', hυ⟩ := hready.runs_setFlags hrun hτ' hf₀ hf₁
    obtain ⟨hflag, hflag', -, hpayload⟩ := Store.setFlags_spec (σ := τ) hpq false true
    rw [← hpayload] at hsame
    obtain ⟨h₁, h₂⟩ := same_of_moved hp hq hflag hflag' hsame
    exact ⟨_, hrun', hυ, h₁, fun _ => h₂⟩
  · intro hp hq
    have hpq := hready.apart_of_flag_ne (by simp [hp, hq])
    obtain ⟨τ, hrun, hτ, hsame⟩ := hright.payload hv₀ hw₀ hready.copy
    have hτ' : ChangesOnly n [p, q] σ τ := hτ.mono (Nat.le_refl n) (by simp [Location.holds_refl])
    obtain ⟨hrun', hυ⟩ := hready.runs_setFlags hrun hτ' hg₁ hg₀
    obtain ⟨hflag, hflag', hpayload, -⟩ := Store.setFlags_spec (σ := τ) hpq true false
    rw [← hpayload] at hsame
    obtain ⟨h₁, h₂⟩ := same_of_moved hq hp hflag' hflag hsame
    exact ⟨_, hrun', hυ, h₂, fun _ => h₁⟩
  · intro hp hq
    refine ⟨.refl _ _ _, same_optional_iff.2 ⟨hp.trans hq.symm, by simp [hq]⟩, fun _ => ?_⟩
    exact same_optional_iff.2 ⟨hq.trans hp.symm, by simp [hp]⟩

/-! ### Assignment -/

/-- Optionals are assigned by assigning the payload, by leaving the old one, or by constructing the first one. -/
theorem Achieves.optionalAssign {f g : C.Expr} (hassign : Achieves limit .copy ℓ n v₀ w₀ A) (hidle : Idle limit B)
    (hf : SetsFlag v false f) (hg : SetsFlag v true g) :
    Achieves limit .copy (.optional ℓ) n v w
      (.line (.declare ty k (some a)) :: .line (.declare ty' k' (some b)) ::
        chainSteps e₁ e₂ e₃ A (B ++ [.line (.expression f)]) (D ++ [.line (.expression g)])) := by
  have hB := hidle.toPiece.append (.step (s := .line (.expression f)) rfl)
  have hD := hright.toPiece.append (.step (s := .line (.expression g)) rfl)
  refine .ofSnapshots (.chainSteps hassign.toPiece hB hD) hk hk' hv₁ hw₁ ha hb fun σ p q hready hsnap => ?_
  have h₁ := holds?_both (σ := σ) hl hr he₁
  have h₂ := holds?_local (σ := σ) hl he₂
  have h₃ := holds?_local (σ := σ) hr he₃
  rw [hsnap.left] at h₂
  rw [hsnap.right] at h₃
  rw [hsnap.left, hsnap.right] at h₁
  refine exists_runs_chainSteps hassign.toPiece hB hD h₁ h₂ h₃ ?_ ?_ ?_ ?_
  · exact fun hp hq => hassign.payloads hv₀ hw₀ hready (hp.trans hq.symm)
  · intro _ hq
    refine ⟨σ.setFlag p false, (hidle.run σ).append (.setFlag hready.left.designates hf) Bool.false_ne_true,
      .setFlag (by simp [Op.written]) false, ?_, by simp⟩
    exact same_optional_iff.2 ⟨by simp [hq], by simp [hq]⟩
  · intro _ hq
    obtain ⟨τ, hrun, hτ, hsame⟩ := hright.payload hv₀ hw₀ hready
    refine ⟨τ.setFlag p true, hrun.append (.setFlag (hready.left τ hτ) hg) Bool.false_ne_true,
      hτ.trans (.setFlag (by simp) true), ?_, by simp⟩
    exact same_optional_iff.2 ⟨by simp [hq], fun _ => by rwa [Store.read_setFlag_payload]⟩
  · exact fun hp hq => ⟨.refl _ _ _, same_optional_iff.2 ⟨hp.trans hq.symm, by simp [hq]⟩, by simp⟩

end Memory

end CBackend
