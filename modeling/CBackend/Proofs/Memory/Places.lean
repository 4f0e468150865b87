import CBackend.C.Expr
import Mathlib.Data.List.Basic

/-!
# Storage

The storage that the emitted code works on. An object is a tree whose leaves hold data: a place is an object
together with the way to one of its parts, and a store says what each place holds. Two places are the same, one
lies within the other, or they have no part in common.

The local variables that a piece of code declares have numbers from some number on. What the code does to them is
nobody's concern, so that the code is described by the other places that it changes.
-/

namespace CBackend.Memory

/-! ### Places -/

/-- A piece of storage that is no part of another one. -/
inductive Object
  /-- A variable. -/
  | named (n : C.Name)
  /-- Storage that is reached only through pointers. -/
  | unnamed (k : Nat)
  deriving DecidableEq

/-- The way from an object to one of its parts. -/
inductive Selector
  | field (f : C.Field)
  | element (i : Nat)
  deriving DecidableEq

/-- A part of an object. -/
structure Location where
  object : Object
  path : List Selector := []
  deriving DecidableEq

variable {p q r : Location} {a b : List Selector} {k n : Nat}

/-- The way to a member of a struct. -/
abbrev memberPath (i : Nat) : List Selector :=
  [.field (.member i)]

/-- The way to an element of a wrapped array. -/
abbrev itemPath (i : Nat) : List Selector :=
  [.field .elements, .element i]

namespace Location

/-- A part of a place. -/
def extend (p : Location) (path : List Selector) : Location :=
  ⟨p.object, p.path ++ path⟩

/-- The member of a struct. -/
abbrev member (p : Location) (i : Nat) : Location :=
  p.extend (memberPath i)

/-- The element of a wrapped array. -/
abbrev item (p : Location) (i : Nat) : Location :=
  p.extend (itemPath i)

/-- A local variable. -/
def ofLocal (n : Nat) : Location :=
  ⟨.named (.localVar n), []⟩

/-- Whether the place is an array itself rather than a struct around one. -/
def isArray (p : Location) : Bool :=
  p.path.getLast? == some (.field .elements)

@[simp]
theorem extend_nil (p : Location) : p.extend [] = p := by
  simp [extend]

@[simp]
theorem extend_extend (p : Location) (a b : List Selector) : (p.extend a).extend b = p.extend (a ++ b) := by
  simp [extend]

theorem extend_inj (h : p.extend a = p.extend b) : a = b := by
  simpa [extend] using h

@[simp]
theorem isArray_member (p : Location) (i : Nat) : (p.member i).isArray = false := by
  simp [isArray, member, extend]

@[simp]
theorem isArray_item (p : Location) (i : Nat) : (p.item i).isArray = false := by
  simp [isArray, item, extend]

@[simp]
theorem isArray_ofLocal (n : Nat) : (ofLocal n).isArray = false :=
  rfl

/-- One place lies within another one. -/
def Holds (p r : Location) : Prop :=
  ∃ path, r = p.extend path

theorem holds_extend (p : Location) (path : List Selector) : p.Holds (p.extend path) :=
  ⟨path, rfl⟩

theorem holds_refl (p : Location) : p.Holds p :=
  ⟨[], p.extend_nil.symm⟩

theorem Holds.trans (h : p.Holds q) (h' : q.Holds r) : p.Holds r := by
  obtain ⟨a, rfl⟩ := h
  obtain ⟨b, rfl⟩ := h'
  exact ⟨a ++ b, extend_extend p a b⟩

theorem Holds.object_eq (h : p.Holds r) : r.object = p.object := by
  obtain ⟨path, rfl⟩ := h
  rfl

/-- Two places have no part in common. -/
def Apart (p q : Location) : Prop :=
  ∀ r, p.Holds r → ¬ q.Holds r

theorem Apart.symm (h : p.Apart q) : q.Apart p :=
  fun r hq hp => h r hp hq

theorem Apart.of_holds {p' q' : Location} (h : p.Apart q) (hp : p.Holds p') (hq : q.Holds q') : p'.Apart q' :=
  fun r hp' hq' => h r (hp.trans hp') (hq.trans hq')

theorem apart_of_object_ne (h : p.object ≠ q.object) : p.Apart q :=
  fun _ hp hq => h (hp.object_eq.symm.trans hq.object_eq)

/-- Parts of one place are apart if they go different ways. -/
theorem apart_extend (h : ∀ x y, a ++ x ≠ b ++ y) :
    (p.extend a).Apart (p.extend b) := by
  rintro r ⟨x, rfl⟩ ⟨y, hy⟩
  rw [extend_extend, extend_extend] at hy
  exact h x y (extend_inj hy)

/-- Two places are the same or have no part in common. -/
def Aligned (p q : Location) : Prop :=
  p = q ∨ p.Apart q

theorem Aligned.symm (h : p.Aligned q) : q.Aligned p :=
  h.imp Eq.symm Apart.symm

theorem Aligned.extend (h : p.Aligned q) (path : List Selector) :
    (p.extend path).Aligned (q.extend path) := by
  rcases h with rfl | h
  · exact .inl rfl
  · exact .inr (h.of_holds (p.holds_extend path) (q.holds_extend path))

/-- Different parts of aligned places are apart. -/
theorem Aligned.apart_extend (h : p.Aligned q) (hab : ∀ x y, a ++ x ≠ b ++ y) :
    (p.extend a).Apart (q.extend b) := by
  rcases h with rfl | h
  · exact Location.apart_extend hab
  · exact h.of_holds (p.holds_extend a) (q.holds_extend b)

/-- A place is a part of a local variable with a number from `n` on. -/
def IsNew (n : Nat) (p : Location) : Prop :=
  ∃ k, n ≤ k ∧ p.object = .named (.localVar k)

theorem isNew_ofLocal : (ofLocal k).IsNew n ↔ n ≤ k := by
  constructor
  · rintro ⟨k', hk', heq⟩
    cases heq
    exact hk'
  · exact fun h => ⟨k, h, rfl⟩

theorem IsNew.mono {n' : Nat} (h : p.IsNew n') (hn : n ≤ n') : p.IsNew n := by
  obtain ⟨k, hk, heq⟩ := h
  exact ⟨k, Nat.le_trans hn hk, heq⟩

theorem apart_ofLocal (h : ¬ p.IsNew n) (hk : n ≤ k) : p.Apart (ofLocal k) :=
  apart_of_object_ne fun heq => h ⟨k, hk, heq⟩

end Location

/-! ### Stores -/

/-- What a place without parts holds. -/
inductive Datum
  | number (z : Int)
  | address (p : Location)
  /-- A scalar that is neither an integer nor a pointer. -/
  | other (k : Nat)
  deriving DecidableEq

/-- Whether a condition on a datum holds. -/
def Datum.isTrue : Datum → Bool
  | number z => z != 0
  | address _ | other _ => true

/-- The content of a place with all its parts. -/
abbrev Tree : Type :=
  List Selector → Datum

/-- What each place holds. -/
abbrev Store : Type :=
  Location → Datum

/-- The way from one place to another one that lies within it. -/
def Location.pathTo? (p r : Location) : Option (List Selector) :=
  if p.object = r.object then strip p.path r.path else none
where
  /-- What remains of a list behind another one. -/
  strip : List Selector → List Selector → Option (List Selector)
    | [], path => some path
    | _ :: _, [] => none
    | s :: a, t :: path => if s = t then strip a path else none

theorem Location.strip_eq_some_iff {path rest : List Selector} :
    Location.pathTo?.strip a path = some rest ↔ path = a ++ rest := by
  induction a generalizing path with
  | nil => simp [Location.pathTo?.strip]
  | cons s a ih =>
    cases path with
    | nil => simp [Location.pathTo?.strip]
    | cons t path =>
      by_cases hst : s = t
      · simp [Location.pathTo?.strip, hst, ih]
      · simp [Location.pathTo?.strip, hst, Ne.symm hst]

theorem Location.pathTo?_eq_some_iff {path : List Selector} :
    p.pathTo? r = some path ↔ r = p.extend path := by
  obtain ⟨o, a⟩ := p
  obtain ⟨o', b⟩ := r
  by_cases ho : o = o'
  · simp [pathTo?, extend, ho, strip_eq_some_iff]
  · simp [pathTo?, extend, ho, Ne.symm ho]

namespace Store

/-- The content of a place. -/
def read (σ : Store) (p : Location) : Tree := fun path =>
  σ (p.extend path)

/-- The store after the content of a place is replaced. -/
def write (σ : Store) (p : Location) (v : Tree) : Store := fun r =>
  (p.pathTo? r).elim (σ r) v

theorem write_extend (σ : Store) (p : Location) (v : Tree) (path : List Selector) :
    σ.write p v (p.extend path) = v path := by
  rw [write, Location.pathTo?_eq_some_iff.2 rfl]
  rfl

@[simp]
theorem write_self (σ : Store) (p : Location) (v : Tree) : σ.write p v p = v [] := by
  simpa using σ.write_extend p v []

theorem write_of_not_holds {σ : Store} {v : Tree} (h : ¬ p.Holds r) : σ.write p v r = σ r := by
  have hnone : p.pathTo? r = none :=
    Option.eq_none_iff_forall_not_mem.2 fun path hpath => h ⟨path, Location.pathTo?_eq_some_iff.1 hpath⟩
  rw [write, hnone]
  rfl

@[simp]
theorem read_write (σ : Store) (p : Location) (v : Tree) : (σ.write p v).read p = v :=
  funext fun path => σ.write_extend p v path

theorem read_write_of_apart {σ : Store} {v : Tree} (h : p.Apart q) :
    (σ.write p v).read q = σ.read q :=
  funext fun path => write_of_not_holds fun hp => h _ hp (q.holds_extend path)

theorem read_nil (σ : Store) (p : Location) : σ.read p [] = σ p := by
  simp [read]

theorem eq_of_read_eq {σ τ : Store} (h : τ.read p = σ.read p) : τ p = σ p := by
  simpa only [read_nil] using congrFun h []

end Store

/-! ### What code leaves as it was -/

/-- Two stores differ only within the given places and in local variables with numbers from `n` on. -/
def ChangesOnly (n : Nat) (ps : List Location) (σ τ : Store) : Prop :=
  ∀ r, ¬ r.IsNew n → (∀ p ∈ ps, ¬ p.Holds r) → τ r = σ r

namespace ChangesOnly

variable {n n' : Nat} {ps ps' : List Location} {σ τ υ : Store} {p q : Location}

theorem refl (n : Nat) (ps : List Location) (σ : Store) : ChangesOnly n ps σ σ :=
  fun _ _ _ => rfl

theorem trans (h : ChangesOnly n ps σ τ) (h' : ChangesOnly n ps τ υ) : ChangesOnly n ps σ υ :=
  fun r hr hps => (h' r hr hps).trans (h r hr hps)

theorem mono (h : ChangesOnly n' ps' σ τ) (hn : n ≤ n') (hps : ∀ p' ∈ ps', ∃ p ∈ ps, p.Holds p') :
    ChangesOnly n ps σ τ := by
  intro r hr hout
  refine h r (fun hnew => hr (hnew.mono hn)) fun p' hp' hholds => ?_
  obtain ⟨p, hp, hpp'⟩ := hps p' hp'
  exact hout p hp (hpp'.trans hholds)

theorem mono_left (h : ChangesOnly n' ps σ τ) (hn : n ≤ n') : ChangesOnly n ps σ τ :=
  h.mono hn fun p hp => ⟨p, hp, p.holds_refl⟩

theorem write (hp : p ∈ ps) (v : Tree) : ChangesOnly n ps σ (σ.write p v) :=
  fun _ _ hps => Store.write_of_not_holds (hps p hp)

theorem write_part (hp : p ∈ ps) (hq : p.Holds q) (v : Tree) : ChangesOnly n ps σ (σ.write q v) :=
  fun _ _ hps => Store.write_of_not_holds fun h => hps p hp (hq.trans h)

theorem write_ofLocal (hk : n ≤ k) (v : Tree) : ChangesOnly n ps σ (σ.write (.ofLocal k) v) :=
  fun _ hr _ => Store.write_of_not_holds fun h => hr ⟨k, hk, h.object_eq⟩

/-- A place that has no part in common with those that are changed holds what it held. -/
theorem eq_of_holds (h : ChangesOnly n ps σ τ) (hq : ¬ q.IsNew n) (hps : ∀ p ∈ ps, p.Apart q) (hr : q.Holds r) :
    τ r = σ r := by
  refine h r (fun hnew => hq ?_) fun p hp hholds => hps p hp r hholds hr
  obtain ⟨path, rfl⟩ := hr
  exact hnew

theorem read_eq (h : ChangesOnly n ps σ τ) (hq : ¬ q.IsNew n) (hps : ∀ p ∈ ps, p.Apart q) :
    τ.read q = σ.read q :=
  funext fun path => h.eq_of_holds hq hps (q.holds_extend path)

end ChangesOnly

end CBackend.Memory
