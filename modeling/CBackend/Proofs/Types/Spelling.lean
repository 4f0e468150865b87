import CBackend.C.TypeTable
import Mathlib.Algebra.Ring.Nat
import Mathlib.Data.List.Basic
import Std.Data.String.ToNat

/-!
# The spelling of types

A type is spelled as the name of its head and a suffix for each pointer level. The suffixes can be told from each other
and from the name by their last characters, so that a spelling is that of one type only, as long as different heads have
different names.
-/

namespace CBackend.C

/-! ### Pointer chains -/

namespace PointerChain

/-- The levels that were pushed on a chain one after the other, the outermost first. -/
inductive Packs : PointerChain → List PointerLevel → Prop
  | empty : Packs .empty []
  | push {c c' : PointerChain} {ls : List PointerLevel} {l : PointerLevel} (h : Packs c ls)
      (hpush : c.push? l = some c') : Packs c' (l :: ls)

variable {c c' : PointerChain} {l : PointerLevel} {ls : List PointerLevel}

/-- The bits that tell which levels are read-only. -/
def bits (c : PointerChain) : Nat :=
  c.word.toNat / 2 ^ 6

theorem depth_eq (c : PointerChain) : c.depth = c.word.toNat % 2 ^ 6 := by
  unfold depth
  rw [UInt64.toNat_and]
  exact Nat.and_two_pow_sub_one_eq_mod c.word.toNat 6

theorem toNat_mask {i : Nat} (hi : i < maxDepth) : (mask i).toNat = 2 ^ (i + 6) := by
  have hshift : 6 + i < 64 := by
    unfold maxDepth at hi
    omega
  have hamount : (UInt64.ofNat (6 + i)).toNat % 64 = 6 + i := by
    rw [UInt64.toNat_ofNat_of_lt' (by simp [UInt64.size]; omega), Nat.mod_eq_of_lt hshift]
  have hpow : 2 ^ (6 + i) < 2 ^ 64 := Nat.pow_lt_pow_right (by decide) hshift
  unfold mask
  rw [UInt64.toNat_shiftLeft, hamount, UInt64.toNat_one, Nat.one_shiftLeft, Nat.mod_eq_of_lt hpow, Nat.add_comm]

theorem level_eq {i : Nat} (hi : i < maxDepth) : c.level i = if c.bits.testBit i then .readOnly else .plain := by
  have hbit : c.word &&& mask i = 0 ↔ c.bits.testBit i = false := by
    rw [← UInt64.toNat_inj, UInt64.toNat_and, toNat_mask hi, bits, Nat.testBit_div_two_pow]
    constructor
    · intro h
      have htest := congrArg (Nat.testBit · (i + 6)) h
      simpa [Nat.testBit_and, Nat.testBit_two_pow_self] using htest
    · intro h
      refine Nat.eq_of_testBit_eq fun j => ?_
      by_cases hj : i + 6 = j
      · subst hj
        simp [Nat.testBit_and, h]
      · simp [Nat.testBit_and, Nat.testBit_two_pow_of_ne hj]
  unfold level
  by_cases h : c.bits.testBit i = true
  · rw [if_neg (by rw [hbit, h]; decide), if_pos h]
  · rw [if_pos (hbit.2 (by simpa using h)), if_neg h]

/-- Counting one more level does not touch the bits of the levels. -/
theorem succ_spec {w : UInt64} (hw : w.toNat % 2 ^ 6 < maxDepth) :
    (w + 1).toNat % 2 ^ 6 = w.toNat % 2 ^ 6 + 1 ∧ (w + 1).toNat / 2 ^ 6 = w.toNat / 2 ^ 6 := by
  unfold maxDepth at hw
  have hlt := w.toNat_lt
  have hsucc : (w + 1).toNat = w.toNat + 1 := by
    rw [UInt64.toNat_add, UInt64.toNat_one]
    omega
  rw [hsucc]
  omega

/-- What one more level does to the number of levels and to their bits. -/
theorem push?_spec (h : c.push? l = some c') :
    c.depth < maxDepth ∧ c'.depth = c.depth + 1 ∧
      c'.bits = if l = .readOnly then c.bits ||| 2 ^ c.depth else c.bits := by
  unfold push? at h
  by_cases hfull : maxDepth ≤ c.depth
  · rw [if_pos hfull] at h
    cases h
  rw [if_neg hfull] at h
  have hdepth : c.depth < maxDepth := Nat.lt_of_not_le hfull
  have hmod : c.word.toNat % 2 ^ 6 < maxDepth := c.depth_eq ▸ hdepth
  cases l with
  | plain =>
    cases h
    have hsucc := succ_spec hmod
    exact ⟨hdepth, by rw [depth_eq, depth_eq, hsucc.1], hsucc.2⟩
  | readOnly =>
    cases h
    have hor : (c.word ||| mask c.depth).toNat = c.word.toNat ||| 2 ^ (c.depth + 6) := by
      rw [UInt64.toNat_or, toNat_mask hdepth]
    have hlow : (c.word ||| mask c.depth).toNat % 2 ^ 6 = c.word.toNat % 2 ^ 6 := by
      rw [hor, Nat.or_mod_two_pow, Nat.pow_add, Nat.mul_mod_left, Nat.or_zero]
    have hhigh : (c.word ||| mask c.depth).toNat / 2 ^ 6 = c.bits ||| 2 ^ c.depth := by
      rw [hor, Nat.or_div_two_pow, Nat.pow_add, Nat.mul_div_cancel _ (by decide)]
      rfl
    have hsucc := succ_spec (hlow ▸ hmod)
    refine ⟨hdepth, ?_, hsucc.2.trans hhigh⟩
    exact (depth_eq _).trans (hsucc.1.trans (by rw [hlow, ← c.depth_eq]))

namespace Packs

/-- There are no bits beyond the levels. -/
theorem bits_lt (h : Packs c ls) : c.bits < 2 ^ c.depth := by
  induction h with
  | empty => decide
  | @push c c' ls l _ hpush ih =>
    obtain ⟨-, hdepth, hbits⟩ := push?_spec hpush
    have hgrow : 2 ^ c.depth < 2 ^ (c.depth + 1) := Nat.pow_lt_pow_right (by decide) (Nat.lt_succ_self _)
    rw [hdepth, hbits]
    by_cases hl : l = .readOnly
    · rw [if_pos hl]
      exact Nat.or_lt_two_pow (Nat.lt_trans ih hgrow) hgrow
    · rw [if_neg hl]
      exact Nat.lt_trans ih hgrow

/-- The level that was pushed last. -/
theorem level_of_push (h : Packs c ls) (hpush : c.push? l = some c') : c'.level c.depth = l := by
  obtain ⟨hfull, -, hbits⟩ := push?_spec hpush
  have hclear := Nat.testBit_lt_two_pow h.bits_lt
  rw [level_eq hfull, hbits]
  cases l with
  | plain => simp [hclear]
  | readOnly => simp [Nat.testBit_two_pow_self]

/-- The levels of a chain are those that were pushed on it. -/
theorem levels_eq (h : Packs c ls) : c.levels = ls.reverse := by
  induction h with
  | empty => rfl
  | @push c c' ls l hc hpush ih =>
    obtain ⟨hfull, hdepth, hbits⟩ := push?_spec hpush
    have hbelow : ∀ i ∈ List.range c.depth, c'.level i = c.level i := by
      intro i hi
      have hlt := List.mem_range.1 hi
      rw [level_eq (Nat.lt_trans hlt hfull), level_eq (Nat.lt_trans hlt hfull), hbits]
      by_cases hl : l = .readOnly
      · rw [if_pos hl, Nat.testBit_or, Nat.testBit_two_pow_of_ne (Nat.ne_of_gt hlt), Bool.or_false]
      · rw [if_neg hl]
    unfold levels at ih ⊢
    rw [hdepth, List.range_succ, List.map_append, List.map_congr_left hbelow, ih, List.map_singleton,
      hc.level_of_push hpush, List.reverse_cons]

/-- A chain is determined by what was pushed on it. -/
theorem unique (h : Packs c ls) (h' : Packs c' ls) : c = c' := by
  induction h generalizing c' with
  | empty => cases h'; rfl
  | push _ hpush ih =>
    cases h' with
    | push h₁ hpush' =>
      cases ih h₁
      exact Option.some.inj (hpush.symm.trans hpush')

end Packs

end PointerChain

/-! ### Suffixes -/

/-- The text of pointer levels, the outermost first. -/
def suffixChars : List PointerLevel → List Char
  | [] => []
  | l :: ls => suffixChars ls ++ (TypeTable.levelSuffix l).toList

theorem toList_join_levelSuffix (ls : List PointerLevel) :
    (String.join (ls.reverse.map TypeTable.levelSuffix)).toList = suffixChars ls := by
  induction ls with
  | nil => rfl
  | cons l ls ih => simp [suffixChars, ← ih, String.toList_join]

/-- The text does not end like a suffix does before its star, or with a star. -/
def EndsName (cs : List Char) : Prop :=
  ∃ c, cs.getLast? = some c ∧ c ≠ ' ' ∧ c ≠ '*'

theorem getLast?_append_suffixChars {a : List Char} (ha : EndsName a) (ls : List PointerLevel) :
    (a ++ suffixChars ls).getLast? ≠ some ' ' := by
  cases ls with
  | nil =>
    obtain ⟨c, hc, hblank, -⟩ := ha
    rw [suffixChars, List.append_nil, hc]
    exact fun h => hblank (Option.some.inj h)
  | cons l ls => cases l <;> simp [suffixChars, TypeTable.levelSuffix]

/-- A name and the suffixes after it can be told apart. -/
theorem append_suffixChars_inj {a b : List Char} (ha : EndsName a) (hb : EndsName b) {ls ls' : List PointerLevel}
    (h : a ++ suffixChars ls = b ++ suffixChars ls') : a = b ∧ ls = ls' := by
  have hname {a b : List Char} (ha : EndsName a) {l : PointerLevel} {ls : List PointerLevel}
      (h : a = b ++ suffixChars (l :: ls)) : False := by
    obtain ⟨c, hc, -, hstar⟩ := ha
    have hlast : (b ++ suffixChars (l :: ls)).getLast? = some '*' := by
      cases l <;> simp [suffixChars, TypeTable.levelSuffix]
    exact hstar (Option.some.inj (hc.symm.trans (h ▸ hlast)))
  -- the two kinds of suffixes differ in the character before the star
  have hkind {a b : List Char} (ha : EndsName a) {ls ls' : List PointerLevel}
      (h : a ++ suffixChars (.plain :: ls) = b ++ suffixChars (.readOnly :: ls')) : False := by
    have hdrop : a ++ suffixChars ls = b ++ suffixChars ls' ++ " const ".toList := by
      have h' : (a ++ suffixChars ls) ++ ['*'] = (b ++ suffixChars ls' ++ " const ".toList) ++ ['*'] := by
        simpa [suffixChars, TypeTable.levelSuffix] using h
      exact List.append_cancel_right h'
    apply getLast?_append_suffixChars ha ls
    rw [hdrop]
    simp
  induction ls generalizing ls' with
  | nil =>
    cases ls' with
    | nil => exact ⟨by simpa [suffixChars] using h, rfl⟩
    | cons l' ls' => exact (hname ha (by simpa [suffixChars] using h)).elim
  | cons l ls ih =>
    cases ls' with
    | nil => exact (hname hb (by simpa [suffixChars] using h.symm)).elim
    | cons l' ls' =>
      have hsame (hl : l = l') : a = b ∧ l :: ls = l' :: ls' := by
        subst hl
        have hdrop : a ++ suffixChars ls = b ++ suffixChars ls' := by
          refine List.append_cancel_right (?_ : _ ++ (TypeTable.levelSuffix l).toList = _)
          simpa [suffixChars] using h
        obtain ⟨hab, hls⟩ := ih hdrop
        exact ⟨hab, by rw [hls]⟩
      cases l <;> cases l'
      · exact hsame rfl
      · exact (hkind ha h).elim
      · exact (hkind hb h.symm).elim
      · exact hsame rfl

/-! ### Types -/

/-- Different heads have different names, none of which ends like a suffix. -/
structure TypeTable.DistinctNames (t : TypeTable) : Prop where
  inj : ∀ head head' name, t.headName? head = some name → t.headName? head' = some name → head = head'
  ends : ∀ head name, t.headName? head = some name → EndsName name.toList

theorem TypeTable.toList_render? {t : TypeTable} {ty : CType} {name text : String} {ls : List PointerLevel}
    (hname : t.headName? ty.head = some name) (hchain : ty.chain.Packs ls) (h : t.render? ty = some text) :
    text.toList = name.toList ++ suffixChars ls := by
  rw [TypeTable.render?, hname] at h
  cases h
  rw [String.toList_append, hchain.levels_eq, toList_join_levelSuffix]

/-- Types with the same spelling are the same. -/
theorem TypeTable.render?_inj {t : TypeTable} (ht : t.DistinctNames) {ty ty' : CType} {ls ls' : List PointerLevel}
    (hchain : ty.chain.Packs ls) (hchain' : ty'.chain.Packs ls') {text : String} (h : t.render? ty = some text)
    (h' : t.render? ty' = some text) : ty = ty' := by
  obtain ⟨name, hname, -⟩ := Option.map_eq_some_iff.1 h
  obtain ⟨name', hname', -⟩ := Option.map_eq_some_iff.1 h'
  have htext := (toList_render? hname hchain h).symm.trans (toList_render? hname' hchain' h')
  obtain ⟨hchars, rfl⟩ := append_suffixChars_inj (ht.ends _ _ hname) (ht.ends _ _ hname') htext
  obtain rfl := String.toList_inj.1 hchars
  obtain ⟨head, chain⟩ := ty
  obtain ⟨head', chain'⟩ := ty'
  cases ht.inj _ _ _ hname hname'
  cases hchain.unique hchain'
  rfl

end CBackend.C
