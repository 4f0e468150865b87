import CBackend.Proofs.Memory.Values

/-!
# Code that swaps and copies

Values are compared along their layout: leaf by leaf, and of two optionals without a payload only the flag. Code
swaps the values at two places, or copies one to the other, if this is what every execution of it does, as long
as the two places are the same or have no part in common. Such code is put together from code for the parts.

The code refers to the two places through values. These have to designate the places all the time, and not only
at the beginning: a place whose designator reads storage that the code writes gets lost on the way.
-/

namespace CBackend

open Flow

namespace Memory

/-! ### Values and their parts -/

/-- The parts of a value. -/
inductive Layout
  /-- A value that is assigned as a whole. -/
  | leaf
  /-- A struct with a number of members. -/
  | record (n : Nat) (part : Nat → Layout)
  /-- A wrapped array. -/
  | array (size : Nat) (elem : Layout)
  /-- A payload and a flag that tells whether there is one. -/
  | optional (payload : Layout)

variable {i j : Nat} {e : C.Expr} {elem : Layout}

/-- The content of a part. -/
def Tree.part (v : Tree) (path : List Selector) : Tree := fun rest =>
  v (path ++ rest)

/-- Whether the flag of an optional is set. -/
def Tree.flag (v : Tree) : Bool :=
  (v [.field (.member 1)]).isTrue

/-- Equality of values. The payloads of optionals that hold none are not compared. -/
def Layout.Same : Layout → Tree → Tree → Prop
  | leaf, v, w => v = w
  | record n part, v, w => ∀ i, i < n → (part i).Same (v.part (memberPath i)) (w.part (memberPath i))
  | array size elem, v, w => ∀ i, i < size → elem.Same (v.part (itemPath i)) (w.part (itemPath i))
  | optional payload, v, w =>
    v.flag = w.flag ∧ (w.flag = true → payload.Same (v.part (memberPath 0)) (w.part (memberPath 0)))

theorem Layout.same_refl (ℓ : Layout) (v : Tree) : ℓ.Same v v := by
  induction ℓ generalizing v with
  | leaf => exact rfl
  | record n part ih => exact fun i _ => ih i _
  | array size elem ih => exact fun i _ => ih _
  | optional payload ih => exact ⟨rfl, fun _ => ih _⟩

theorem Store.read_extend (σ : Store) (p : Location) (path : List Selector) :
    σ.read (p.extend path) = (σ.read p).part path := by
  funext rest
  simp [Store.read, Tree.part]

/-- Different parts go different ways. -/
def Separated (way : Nat → List Selector) : Prop :=
  ∀ i j, i ≠ j → ∀ x y, way i ++ x ≠ way j ++ y

theorem separated_memberPath : Separated memberPath := by
  intro i j hij x y h
  simp [hij] at h

theorem separated_itemPath : Separated itemPath := by
  intro i j hij x y h
  simp [hij] at h

/-! ### Swapping and copying -/

/-- What is done to two places. -/
inductive Op
  /-- Their contents are exchanged. -/
  | swap
  /-- The first one gets the content of the second one. -/
  | copy
  deriving DecidableEq

namespace Op

/-- The places that are written. -/
def written : Op → Location → Location → List Location
  | swap, p, q => [p, q]
  | copy, p, _ => [p]

/-- What holds afterwards. -/
def Done (op : Op) (ℓ : Layout) (p q : Location) (σ τ : Store) : Prop :=
  ℓ.Same (τ.read p) (σ.read q) ∧ (op = swap → ℓ.Same (τ.read q) (σ.read p))

variable {op : Op} {ℓ : Layout} {p q r : Location} {σ σ' τ τ' : Store} {path : List Selector}

theorem written_part (op : Op) (p q : Location) (path : List Selector) :
    ∀ r ∈ op.written (p.extend path) (q.extend path), ∃ s ∈ op.written p q, s.Holds r := by
  cases op <;> simp [written, Location.holds_extend]

theorem mem_written_left (op : Op) (p q : Location) : p ∈ op.written p q := by
  cases op <;> simp [written]

/-- A part is apart from the other parts that are written. -/
theorem apart_of_mem_written {way : Nat → List Selector} (hway : Separated way) (h : p.Aligned q) (hij : i ≠ j)
    (hr : r ∈ op.written (p.extend (way i)) (q.extend (way i))) :
    r.Apart (p.extend (way j)) ∧ r.Apart (q.extend (way j)) := by
  have hrpq : r = p.extend (way i) ∨ r = q.extend (way i) := by
    cases op <;> simp [written] at hr <;> tauto
  rcases hrpq with rfl | rfl
  · exact ⟨Location.apart_extend (hway i j hij), h.apart_extend (hway i j hij)⟩
  · exact ⟨h.symm.apart_extend (hway i j hij), Location.apart_extend (hway i j hij)⟩

namespace Done

/-- What is done depends only on what is read at the two places. -/
theorem congr (h : op.Done ℓ p q σ τ) (hσp : σ'.read p = σ.read p) (hσq : σ'.read q = σ.read q)
    (hτp : τ'.read p = τ.read p) (hτq : τ'.read q = τ.read q) : op.Done ℓ p q σ' τ' := by
  rwa [Done, hσp, hσq, hτp, hτq]

/-- Nothing has to be done if the two places are the same. -/
theorem refl (op : Op) (ℓ : Layout) (p : Location) (σ : Store) : op.Done ℓ p p σ σ :=
  ⟨ℓ.same_refl _, fun _ => ℓ.same_refl _⟩

end Done

end Op

/-- Two values designate places that can be swapped or copied by code that uses local variables from `n` on. -/
structure Ready (op : Op) (n : Nat) (v w : Value) (p q : Location) (σ : Store) : Prop where
  aligned : p.Aligned q
  left : v.Fixed n (op.written p q) p σ
  right : w.Fixed n (op.written p q) q σ
  leftOld : ¬ p.IsNew n
  rightOld : ¬ q.IsNew n
  leftWhole : p.isArray = false
  rightWhole : q.isArray = false

namespace Ready

variable {op : Op} {n n' : Nat} {v w v' w' : Value} {p q : Location} {σ τ : Store} {path : List Selector}

theorem later (h : Ready op n v w p q σ) (hτ : ChangesOnly n (op.written p q) σ τ) (hn : n ≤ n') :
    Ready op n' v w p q τ where
  aligned := h.aligned
  left := h.left.later hτ hn fun r hr => ⟨r, hr, r.holds_refl⟩
  right := h.right.later hτ hn fun r hr => ⟨r, hr, r.holds_refl⟩
  leftOld hnew := h.leftOld (hnew.mono hn)
  rightOld hnew := h.rightOld (hnew.mono hn)
  leftWhole := h.leftWhole
  rightWhole := h.rightWhole

/-- The same parts of both places can be worked on. -/
theorem part (h : Ready op n v w p q σ) (hpath : ∀ p : Location, (p.extend path).isArray = false)
    (hv : v'.IsPart v path) (hw : w'.IsPart w path) : Ready op n v' w' (p.extend path) (q.extend path) σ where
  aligned := h.aligned.extend path
  left := (h.left.later (.refl _ _ _) (Nat.le_refl n) (op.written_part p q path)).part hv
  right := (h.right.later (.refl _ _ _) (Nat.le_refl n) (op.written_part p q path)).part hw
  leftOld := h.leftOld
  rightOld := h.rightOld
  leftWhole := hpath p
  rightWhole := hpath q

theorem copy (h : Ready op n v w p q σ) : Ready .copy n v w p q σ := by
  have hsub : ∀ r ∈ Op.copy.written p q, ∃ s ∈ op.written p q, s.Holds r := by
    simpa [Op.written] using ⟨p, op.mem_written_left p q, p.holds_refl⟩
  exact { h with
    left := h.left.later (.refl _ _ _) (Nat.le_refl n) hsub
    right := h.right.later (.refl _ _ _) (Nat.le_refl n) hsub }

theorem exchange (h : Ready .swap n v w p q σ) : Ready .swap n w v q p σ where
  aligned := h.aligned.symm
  left := h.right.later (.refl _ _ _) (Nat.le_refl n) (by simp [Op.written, Location.holds_refl])
  right := h.left.later (.refl _ _ _) (Nat.le_refl n) (by simp [Op.written, Location.holds_refl])
  leftOld := h.rightOld
  rightOld := h.leftOld
  leftWhole := h.rightWhole
  rightWhole := h.leftWhole

end Ready

/-! ### Pieces of code -/

/-- Code that stands for itself: its blocks are closed, and it does not go on with a conditional. -/
structure Piece (S : List Step) : Prop where
  nested : Nested S
  start : ¬ StartsElse S

namespace Piece

variable {S S' : List Step}

theorem nil : Piece [] :=
  ⟨.nil, id⟩

theorem append (h : Piece S) (h' : Piece S') : Piece (S ++ S') :=
  ⟨h.nested.append h'.nested, not_startsElse_append h.start h'.start⟩

theorem step {s : Step} (hs : s.isComplete = true) : Piece [s] := by
  refine ⟨.step hs .nil, fun h => ?_⟩
  cases s with
  | note _ => cases h
  | line l => cases l <;> first | exact Bool.false_ne_true h | cases hs

theorem whileSteps (h : Piece S) : Piece (whileSteps e S) :=
  ⟨.head rfl (.block h.nested .nil), Bool.false_ne_true⟩

end Piece

/-- The steps of a conditional with one branch. -/
def ifSteps (e : C.Expr) (c : List Step) : List Step :=
  .line (.ifThen e) :: .line .openBlock :: (c ++ [.line .closeBlock])

theorem Piece.ifSteps {S : List Step} (h : Piece S) : Piece (ifSteps e S) :=
  ⟨.head rfl (.block h.nested .nil), Bool.false_ne_true⟩

/-- Code that changes nothing. -/
structure Idle (limit : Nat) (S : List Step) : Prop extends Piece S where
  run : ∀ σ, Runs limit false S σ σ

namespace Idle

variable {limit : Nat} {S S' : List Step}

theorem append (h : Idle limit S) (h' : Idle limit S') : Idle limit (S ++ S') :=
  ⟨h.toPiece.append h'.toPiece, fun σ => (h.run σ).append (h'.run σ) h'.start⟩

theorem note (n : Note) : Idle limit [.note n] :=
  ⟨.step rfl, fun _ => .step rfl rfl⟩

end Idle

/-! ### Code that swaps or copies -/

/-- Every execution of the code swaps or copies the values at two places, and changes nothing else but local
variables of its own. -/
structure Achieves (limit : Nat) (op : Op) (ℓ : Layout) (n : Nat) (v w : Value) (S : List Step) : Prop
    extends Piece S where
  run : ∀ σ p q, Ready op n v w p q σ →
    ∃ τ, Runs limit false S σ τ ∧ ChangesOnly n (op.written p q) σ τ ∧ op.Done ℓ p q σ τ

variable {limit : Nat} {op : Op} {ℓ : Layout} {n n' k : Nat} {v w v' w' : Value} {S S' : List Step}
  {p q : Location} {σ τ : Store}

namespace Achieves

theorem idle_append (hI : Idle limit S) (h : Achieves limit op ℓ n v w S') :
    Achieves limit op ℓ n v w (S ++ S') := by
  refine ⟨hI.toPiece.append h.toPiece, fun σ p q hready => ?_⟩
  obtain ⟨τ, hrun, hτ⟩ := h.run σ p q hready
  exact ⟨τ, (hI.run σ).append hrun h.start, hτ⟩

theorem append_idle (h : Achieves limit op ℓ n v w S) (hI : Idle limit S') :
    Achieves limit op ℓ n v w (S ++ S') := by
  refine ⟨h.toPiece.append hI.toPiece, fun σ p q hready => ?_⟩
  obtain ⟨τ, hrun, hτ⟩ := h.run σ p q hready
  exact ⟨τ, hrun.append (hI.run τ) hI.start, hτ⟩

/-- Code may use fewer of the new local variables. -/
theorem mono (h : Achieves limit op ℓ n' v w S) (hn : n ≤ n') : Achieves limit op ℓ n v w S := by
  refine ⟨h.toPiece, fun σ p q hready => ?_⟩
  obtain ⟨τ, hrun, hτ, hdone⟩ := h.run σ p q (hready.later (.refl _ _ _) hn)
  exact ⟨τ, hrun, hτ.mono_left hn, hdone⟩

/-- Nothing has to be done if both places are the same. -/
theorem guarded {a b : C.Expr} (h : Achieves limit op ℓ n v w S) (ha : v.address = .ok a)
    (hb : w.address = .ok b) : Achieves limit op ℓ n v w (ifSteps (.binary "!=" a b) S) := by
  refine ⟨h.ifSteps, fun σ p q hready => ?_⟩
  have he := holds?_distinct hready.left.designates hready.right.designates ha hb
  by_cases hpq : p = q
  · subst hpq
    exact ⟨σ, .ifFalse h.nested (by simpa using he) .nil, .refl _ _ _, .refl op ℓ p σ⟩
  · obtain ⟨τ, hrun, hτ⟩ := h.run σ p q hready
    exact ⟨τ, .ifTrue h.nested (by simpa [hpq] using he) hrun .nil, hτ⟩

/-! ### Leaves -/

/-- An assignment copies. -/
theorem leafCopy {level : C.Precedence} (he : v.binary "=" w level = .ok e) :
    Achieves limit .copy .leaf n v w [.line (.expression e)] := by
  refine ⟨.step rfl, fun σ p q hready => ?_⟩
  exact ⟨_, .assign hready.left.designates hready.right.designates hready.rightWhole he, .write (by simp [Op.written]) _, by simp [Layout.Same], by simp⟩

/-- Three assignments through a local variable swap. -/
theorem leafSwap {ty : C.CType} {temp : Value} {a e' : C.Expr} {level : C.Precedence} (hk : n ≤ k)
    (htemp : temp.IsLocal k) (ha : v.asInitializer = .ok a) (he : v.binary "=" w level = .ok e)
    (he' : w.binary "=" temp level = .ok e') :
    Achieves limit .swap .leaf n v w
      [.line (.declare ty k (some a)), .line (.expression e), .line (.expression e')] := by
  refine ⟨(Piece.step rfl).append ((Piece.step rfl).append (.step rfl)), fun σ p q hready => ?_⟩
  have hp := Location.apart_ofLocal hready.leftOld hk
  have hq := Location.apart_ofLocal hready.rightOld hk
  let σ₁ := σ.write (.ofLocal k) (σ.read p)
  let σ₂ := σ₁.write p (σ₁.read q)
  let σ₃ := σ₂.write q (σ₂.read (.ofLocal k))
  have h₁ : ChangesOnly n [p, q] σ σ₁ := .write_ofLocal hk _
  have h₂ : ChangesOnly n [p, q] σ σ₂ := h₁.trans (.write (by simp) _)
  have hrun₁ : Runs limit false [.line (.declare ty k (some a))] σ σ₁ :=
    .declare hready.left.designates hready.leftWhole ha
  have hrun₂ : Runs limit false [.line (.expression e)] σ₁ σ₂ :=
    .assign (hready.left σ₁ h₁) (hready.right σ₁ h₁) hready.rightWhole he
  have hrun₃ : Runs limit false [.line (.expression e')] σ₂ σ₃ :=
    .assign (hready.right σ₂ h₂) (htemp σ₂) rfl he'
  refine ⟨σ₃, hrun₁.append (hrun₂.append hrun₃ Bool.false_ne_true) Bool.false_ne_true, h₂.trans (.write (by simp) _), ?_⟩
  have htmp : σ₂.read (.ofLocal k) = σ.read p := by
    rw [Store.read_write_of_apart hp, Store.read_write]
  have hread : σ₁.read q = σ.read q := Store.read_write_of_apart hq.symm
  have hq₃ : σ₃.read q = σ.read p := by rw [Store.read_write, htmp]
  refine ⟨?_, fun _ => hq₃⟩
  rcases hready.aligned with rfl | hpq
  · exact hq₃
  · calc σ₃.read p = σ₂.read p := Store.read_write_of_apart hpq.symm
      _ = σ₁.read q := Store.read_write _ _ _
      _ = σ.read q := hread

end Achieves

/-! ### Parts -/

/-- The first parts of two places are done, and the others hold what they held. -/
structure PartsDone (op : Op) (way : Nat → List Selector) (part : Nat → Layout) (k n : Nat) (p q : Location)
    (σ τ : Store) : Prop where
  changes : ChangesOnly n (op.written p q) σ τ
  done : ∀ i, i < k → op.Done (part i) (p.extend (way i)) (q.extend (way i)) σ τ
  left : ∀ i, k ≤ i → τ.read (p.extend (way i)) = σ.read (p.extend (way i))
  right : ∀ i, k ≤ i → τ.read (q.extend (way i)) = σ.read (q.extend (way i))

namespace PartsDone

variable {way : Nat → List Selector} {part : Nat → Layout} {υ : Store}

theorem zero (h : ChangesOnly n (op.written p q) σ τ) (hp : τ.read p = σ.read p) (hq : τ.read q = σ.read q) :
    PartsDone op way part 0 n p q σ τ where
  changes := h
  done i hi := absurd hi (Nat.not_lt_zero i)
  left i _ := by rw [Store.read_extend, hp, Store.read_extend]
  right i _ := by rw [Store.read_extend, hq, Store.read_extend]

/-- One more part is done. -/
theorem succ (h : PartsDone op way part k n p q σ τ) (hway : Separated way) (hpq : p.Aligned q)
    (hp : ¬ p.IsNew n) (hq : ¬ q.IsNew n) (hn : n ≤ n')
    (hυ : ChangesOnly n' (op.written (p.extend (way k)) (q.extend (way k))) τ υ)
    (hdone : op.Done (part k) (p.extend (way k)) (q.extend (way k)) τ υ) :
    PartsDone op way part (k + 1) n p q σ υ := by
  have hp' {i : Nat} (hi : k ≠ i) : υ.read (p.extend (way i)) = τ.read (p.extend (way i)) :=
    hυ.read_eq (fun hnew => hp (hnew.mono hn)) fun _ hr => (Op.apart_of_mem_written hway hpq hi hr).1
  have hq' {i : Nat} (hi : k ≠ i) : υ.read (q.extend (way i)) = τ.read (q.extend (way i)) :=
    hυ.read_eq (fun hnew => hq (hnew.mono hn)) fun _ hr => (Op.apart_of_mem_written hway hpq hi hr).2
  refine ⟨h.changes.trans (hυ.mono hn (op.written_part p q (way k))), fun i hi => ?_, fun i hi => ?_, fun i hi => ?_⟩
  · rcases Nat.lt_succ_iff_lt_or_eq.1 hi with hlt | rfl
    · have hne : k ≠ i := by omega
      exact (h.done i hlt).congr rfl rfl (hp' hne) (hq' hne)
    · exact hdone.congr (h.left i (Nat.le_refl i)).symm (h.right i (Nat.le_refl i)).symm rfl rfl
  · rw [hp' (by omega), h.left i (by omega)]
  · rw [hq' (by omega), h.right i (by omega)]

/-- Local variables of the code itself do not count. -/
theorem write_ofLocal (h : PartsDone op way part k n p q σ τ) (hp : ¬ p.IsNew n) (hq : ¬ q.IsNew n) (hj : n ≤ j)
    (x : Tree) : PartsDone op way part k n p q σ (τ.write (.ofLocal j) x) := by
  have hp' (i : Nat) : (τ.write (.ofLocal j) x).read (p.extend (way i)) = τ.read (p.extend (way i)) :=
    Store.read_write_of_apart (Location.apart_ofLocal (p := p.extend (way i)) hp hj).symm
  have hq' (i : Nat) : (τ.write (.ofLocal j) x).read (q.extend (way i)) = τ.read (q.extend (way i)) :=
    Store.read_write_of_apart (Location.apart_ofLocal (p := q.extend (way i)) hq hj).symm
  refine ⟨h.changes.trans (.write_ofLocal hj _), fun i hi => ?_, fun i hi => ?_, fun i hi => ?_⟩
  · exact (h.done i hi).congr rfl rfl (hp' i) (hq' i)
  · rw [hp', h.left i hi]
  · rw [hq', h.right i hi]

end PartsDone

/-! ### Structs -/

/-- Code that does the first members of two structs. -/
structure AchievesMembers (limit : Nat) (op : Op) (part : Nat → Layout) (k n : Nat) (v w : Value)
    (S : List Step) : Prop extends Piece S where
  run : ∀ σ p q, Ready op n v w p q σ → ∃ τ, Runs limit false S σ τ ∧ PartsDone op memberPath part k n p q σ τ

namespace AchievesMembers

variable {part : Nat → Layout}

theorem nil : AchievesMembers limit op part 0 n v w [] :=
  ⟨.nil, fun σ _ _ _ => ⟨σ, .nil, .zero (.refl _ _ _) rfl rfl⟩⟩

theorem append (h : AchievesMembers limit op part k n v w S) (hn : n ≤ n')
    (h' : Achieves limit op (part k) n' v' w' S') (hv : v'.IsPart v (memberPath k))
    (hw : w'.IsPart w (memberPath k)) : AchievesMembers limit op part (k + 1) n v w (S ++ S') := by
  refine ⟨h.toPiece.append h'.toPiece, fun σ p q hready => ?_⟩
  obtain ⟨τ, hrun, hτ⟩ := h.run σ p q hready
  have hready' := (hready.later hτ.changes hn).part (fun r => r.isArray_member k) hv hw
  obtain ⟨υ, hrun', hυ, hdone⟩ := h'.run τ _ _ hready'
  exact ⟨υ, hrun.append hrun' h'.start,
    hτ.succ separated_memberPath hready.aligned hready.leftOld hready.rightOld hn hυ hdone⟩

/-- A struct is done when its members are. -/
theorem record (h : AchievesMembers limit op part k n v w S) : Achieves limit op (.record k part) n v w S := by
  refine ⟨h.toPiece, fun σ p q hready => ?_⟩
  obtain ⟨τ, hrun, hτ⟩ := h.run σ p q hready
  refine ⟨τ, hrun, hτ.changes, fun i hi => ?_, fun hop i hi => ?_⟩
  · simpa only [Store.read_extend] using (hτ.done i hi).1
  · simpa only [Store.read_extend] using (hτ.done i hi).2 hop

end AchievesMembers

/-! ### Arrays -/

/-- A value designates the element of what another one designates whose index a local variable has. -/
def IsItem (v' v : Value) (j : Nat) : Prop :=
  ∀ σ p (i : Nat), v.Designates σ p → σ (.ofLocal j) = .number i → v'.Designates σ (p.item i)

/-- A round of the loop over the elements of a wrapped array. -/
def roundSteps (j : Nat) (S : List Step) : List Step :=
  S ++ [.line (.expression (.before "++" (.name (.localVar j))))]

/-- The loop over the elements of a wrapped array. -/
def loopSteps (ty : C.CType) (j size : Nat) (S : List Step) : List Step :=
  .line (.declare ty j (some (.nat 0))) ::
    whileSteps (.binary "<" (.name (.localVar j)) (.nat size)) (roundSteps j S)

/-- Code that works on parts of the two places leaves an earlier local variable alone. -/
theorem Ready.ofLocal_eq {path : List Selector} {υ : Store} (h : Ready op n v w p q σ) (hn : n ≤ j) (hj : j < n')
    (hυ : ChangesOnly n' (op.written (p.extend path) (q.extend path)) τ υ) :
    υ (.ofLocal j) = τ (.ofLocal j) := by
  refine hυ _ (fun hnew => absurd (Location.isNew_ofLocal.1 hnew) (by omega)) fun r hr hholds => ?_
  obtain ⟨s, hs, hsr⟩ := op.written_part p q path r hr
  have hnew : s.IsNew n := ⟨j, hn, (hsr.trans hholds).object_eq.symm⟩
  have hspq : s = p ∨ s = q := by
    cases op <;> simp [Op.written] at hs <;> tauto
  rcases hspq with rfl | rfl
  · exact h.leftOld hnew
  · exact h.rightOld hnew

/-- The elements of a wrapped array can be worked on, as long as the index stays. -/
theorem Ready.item (h : Ready op n v w p q σ) (hτ : PartsDone op itemPath (fun _ => elem) i n p q σ τ)
    (hj : τ (.ofLocal j) = .number i) (hn : n ≤ j) (hj' : j < n') (hv : IsItem v' v j) (hw : IsItem w' w j) :
    Ready op n' v' w' (p.item i) (q.item i) τ := by
  have hn' : n ≤ n' := by omega
  have hlater {υ : Store} (hυ : ChangesOnly n' (op.written (p.item i) (q.item i)) τ υ) :
      ChangesOnly n (op.written p q) σ υ ∧ υ (.ofLocal j) = .number i :=
    ⟨hτ.changes.trans (hυ.mono hn' (op.written_part p q (itemPath i))), (h.ofLocal_eq hn hj' hυ).trans hj⟩
  exact {
    aligned := h.aligned.extend (itemPath i)
    left := fun υ hυ => hv υ p i (h.left υ (hlater hυ).1) (hlater hυ).2
    right := fun υ hυ => hw υ q i (h.right υ (hlater hυ).1) (hlater hυ).2
    leftOld := fun hnew => h.leftOld (hnew.mono hn')
    rightOld := fun hnew => h.rightOld (hnew.mono hn')
    leftWhole := p.isArray_item i
    rightWhole := q.isArray_item i }

/-- What holds before the round for an element: the elements before it are done. -/
def RoundState (op : Op) (elem : Layout) (n j : Nat) (p q : Location) (σ : Store) (i : Nat) (τ : Store) : Prop :=
  PartsDone op itemPath (fun _ => elem) i n p q σ τ ∧ τ (.ofLocal j) = .number i

/-- A round of the loop does one element. -/
theorem Achieves.round {size : Nat} (h : Achieves limit op elem n' v' w' S) (hn : n ≤ j) (hj : j < n')
    (hsize : size < limit) (hv : IsItem v' v j) (hw : IsItem w' w j) (hready : Ready op n v w p q σ) (hi : i < size)
    (hτ : RoundState op elem n j p q σ i τ) :
    ∃ υ, Runs limit false (roundSteps j S) τ υ ∧ RoundState op elem n j p q σ (i + 1) υ := by
  obtain ⟨hτ, hindex⟩ := hτ
  obtain ⟨υ, hrun, hυ, hdone⟩ := h.run τ _ _ (hready.item hτ hindex hn hj hv hw)
  have hindex' : υ (.ofLocal j) = .number i := (hready.ofLocal_eq hn hj hυ).trans hindex
  have hsucc := hτ.succ separated_itemPath hready.aligned hready.leftOld hready.rightOld (by omega) hυ hdone
  exact ⟨_, hrun.append (.increment hindex' (by omega)) Bool.false_ne_true,
    hsucc.write_ofLocal hready.leftOld hready.rightOld hn _, Store.write_self _ _ _⟩

/-- An array is done by a loop whose rounds do one element each. -/
theorem Achieves.array {ty : C.CType} {size : Nat} (h : Achieves limit op elem n' v' w' S) (hn : n ≤ j) (hj : j < n')
    (hsize : size < limit) (hv : IsItem v' v j) (hw : IsItem w' w j) :
    Achieves limit op (.array size elem) n v w (loopSteps ty j size S) := by
  have hbody : Piece (roundSteps j S) := h.toPiece.append (.step rfl)
  refine ⟨(Piece.step rfl).append hbody.whileSteps, fun σ p q hready => ?_⟩
  let σ₁ := σ.write (.ofLocal j) fun _ => .number (0 : Nat)
  have hinit : Runs limit false [.line (.declare ty j (some (.nat 0)))] σ σ₁ := .declareNat
  have hzero : RoundState op elem n j p q σ 0 σ₁ :=
    ⟨(PartsDone.zero (.refl _ _ _) rfl rfl).write_ofLocal hready.leftOld hready.rightOld hn _,
      Store.write_self _ _ _⟩
  have hrounds : ∃ τ, Runs limit false (whileSteps (.binary "<" (.name (.localVar j)) (.nat size)) (roundSteps j S))
      σ₁ τ ∧ RoundState op elem n j p q σ size τ :=
    Runs.whileRounds hbody.nested (fun _ _ _ hI => holds?_index hI.2)
      (fun _ _ hi hI => h.round hn hj hsize hv hw hready hi hI) (Nat.zero_le size) hzero
  obtain ⟨τ, hloop, hτ, -⟩ := hrounds
  refine ⟨τ, hinit.append hloop hbody.whileSteps.start, hτ.changes, fun i hi => ?_, fun hop i hi => ?_⟩
  · simpa only [Store.read_extend] using (hτ.done i hi).1
  · simpa only [Store.read_extend] using (hτ.done i hi).2 hop

end Memory

end CBackend
