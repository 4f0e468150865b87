import CBackend.Proofs.Bracketing.Nodes
import CBackend.Proofs.Plans.Code
import CBackend.Proofs.StringConstants

/-!
# Switches over strings

A switch over strings becomes a chain of conditionals. A string is a pair of pointers, which are subtracted for its
length, and its bytes are compared with those of the string constants by `memcmp`, which must not read past the end of
an array. The chain executes the branch of the first case with a value that has the bytes of the matched string.

## Main definitions

* `StringMemory.eval` : the numbers that tests evaluate to.
* `Chosen` : the block that a chain of conditionals executes.
* `Selects` : a chain executes the right branch.

## Main results

* `string_switches_select`.
-/

namespace CBackend

open IR Flow Text
open Lowering (walk BranchResult)

variable {isFirst : Bool} {e first last : C.Expr} {default : Option ExprId} {cases : List SwitchCase}

/-! ### Tests -/

/-- Where pointers point to, as an array and an offset, and the bytes of the arrays. -/
structure StringMemory where
  pointer? : C.Expr → Option (C.Name × Nat)
  bytes : C.Name → List UInt8

namespace StringMemory

variable (E : StringMemory)

/-- Where an expression points to. -/
def address? : C.Expr → Option (C.Name × Nat)
  | .name (.string n) => some (.string n, 0)
  | e => E.pointer? e

/-- The result of `memcmp`, which is zero if the bytes are equal. -/
def compare? (p q : C.Name × Nat) (n : Nat) : Option Int :=
  if p.2 + n ≤ (E.bytes p.1).length ∧ q.2 + n ≤ (E.bytes q.1).length then
    some (((E.bytes p.1).drop p.2).take n != ((E.bytes q.1).drop q.2).take n).toNat
  else none

/-- The number of an expression. The operands of `&&` and `||` are evaluated as far as needed. -/
def eval : C.Expr → Option Int
  | .literal (.int z) => some z
  | .paren e => eval e
  | .call (.name (.symbol f)) [p, q, .literal (.int n)] =>
    if f = "memcmp" then do E.compare? (← E.address? p) (← E.address? q) n.toNat else none
  | .binary op a b =>
    if op = "-" then do
      let p ← E.address? a
      let q ← E.address? b
      if p.1 = q.1 then some (p.2 - q.2) else none
    else if op = "==" then do pure ((← eval a) == (← eval b)).toNat
    else if op = "&&" then do
      if (← eval a) = 0 then pure 0 else pure ((← eval b) != 0).toNat
    else if op = "||" then do
      if (← eval a) = 0 then pure ((← eval b) != 0).toNat else pure 1
    else none
  | _ => none

/-- Two pointers are around a sequence of bytes. -/
def Holds (first last : C.Expr) (bytes : List UInt8) : Prop :=
  ∃ array i, E.address? first = some (array, i) ∧ E.address? last = some (array, i + bytes.length) ∧
    ((E.bytes array).drop i).take bytes.length = bytes

end StringMemory

/-- The test of the string between two pointers against a string constant with a number. -/
def stringTest (first last : C.Expr) (s : String) (n : Nat) : C.Expr :=
  let length := C.Expr.binary "-" last first
  let size := C.Expr.nat s.utf8ByteSize
  if s.isEmpty then .binary "==" length (.nat 0)
  else .paren (.binary "&&" (.binary "==" length size)
    (.binary "==" (.call (.symbol "memcmp") [first, .name (.string n), size]) (.nat 0)))

section

variable {E : StringMemory} {first last : C.Expr} {bytes : List UInt8}

theorem StringMemory.eval_equal {a b : C.Expr} {x y : Int} (ha : E.eval a = some x) (hb : E.eval b = some y) :
    E.eval (.binary "==" a b) = some ((x == y).toNat : Int) := by
  simp [eval, ha, hb]

theorem StringMemory.Holds.eval_length (h : E.Holds first last bytes) (n : Nat) :
    E.eval (.binary "==" (.binary "-" last first) (.nat n)) = some ((bytes.length == n).toNat : Int) := by
  obtain ⟨array, i, hfirst, hlast, -⟩ := h
  have hlength : E.eval (.binary "-" last first) = some (bytes.length : Int) := by simp [eval, hfirst, hlast]
  have hn : E.eval (.nat n) = some (n : Int) := by rw [C.Expr.nat, eval]
  have hcast : ((bytes.length : Int) == n) = (bytes.length == n) := Bool.eq_iff_iff.2 (by simp)
  rw [eval_equal hlength hn, hcast]

/-- The lengths are compared before the bytes, so no byte outside of an array is read. -/
theorem eval_stringTest {s : String} {n : Nat} (h : E.Holds first last bytes)
    (hs : utf8Bytes s <+: E.bytes (.string n)) :
    E.eval (stringTest first last s n) = some ((bytes == utf8Bytes s).toNat : Int) := by
  have hlength := h.eval_length
  obtain ⟨array, i, hfirst, -, hbytes⟩ := h
  have hsize := length_utf8Bytes s
  unfold stringTest
  split
  · next hempty =>
    obtain rfl : s = "" := by simpa using hempty
    have hnil : utf8Bytes "" = [] := List.eq_nil_of_length_eq_zero hsize
    rw [hlength, hnil]
    cases bytes <;> rfl
  · next hempty =>
    rw [StringMemory.eval, StringMemory.eval, if_neg (by decide), if_neg (by decide), if_pos rfl, hlength]
    by_cases heq : bytes.length = s.utf8ByteSize
    · have htake : (E.bytes (.string n)).take s.utf8ByteSize = utf8Bytes s := by
        rw [← hsize]
        exact (List.prefix_iff_eq_take.1 hs).symm
      have hroom : i + s.utf8ByteSize ≤ (E.bytes array).length ∧ 0 + s.utf8ByteSize ≤ (E.bytes (.string n)).length := by
        have hpos : s.utf8ByteSize ≠ 0 := fun h => hempty (by simp [String.isEmpty, h])
        have hlen := congrArg List.length hbytes
        rw [List.length_take, List.length_drop] at hlen
        exact ⟨by omega, by have := hs.length_le; omega⟩
      have hcompare : E.compare? (array, i) (.string n, 0) s.utf8ByteSize = some ((bytes != utf8Bytes s).toNat : Int) := by
        rw [StringMemory.compare?, if_pos hroom, List.drop_zero, htake, ← heq, hbytes]
      have hcall : E.eval (.call (.symbol "memcmp") [first, .name (.string n), .nat s.utf8ByteSize]) =
          some ((bytes != utf8Bytes s).toNat : Int) := by
        rw [C.Expr.symbol, C.Expr.nat, StringMemory.eval, if_pos rfl, hfirst]
        exact hcompare
      have hzero : E.eval (.nat 0) = some 0 := by rw [C.Expr.nat, StringMemory.eval]; rfl
      rw [StringMemory.eval_equal hcall hzero]
      cases hsame : bytes == utf8Bytes s <;> simp [bne, hsame, heq]
    · have hne : (bytes == utf8Bytes s) = false := beq_eq_false_iff_ne.2 fun h => heq (h ▸ hsize)
      simp [hne, heq]

/-- A disjunction of tests. -/
theorem eval_anyOf {α : Type} {test : α → C.Expr} {p : α → Bool} {xs : List α} (hne : xs ≠ [])
    (h : ∀ x ∈ xs, E.eval (test x) = some ((p x).toNat : Int)) :
    E.eval (Lowering.anyOf (xs.map test)) = some ((xs.any p).toNat : Int) := by
  have hfold {e : C.Expr} {b : Bool} {xs : List α} (he : E.eval e = some (b.toNat : Int))
      (h : ∀ x ∈ xs, E.eval (test x) = some ((p x).toNat : Int)) :
      E.eval ((xs.map test).foldl (fun acc e => .binary "||" acc e) e) = some ((b || xs.any p).toNat : Int) := by
    induction xs generalizing e b with
    | nil => simpa using he
    | cons x xs ih =>
      have hx : E.eval (.binary "||" e (test x)) = some ((b || p x).toNat : Int) := by
        cases b <;> cases hp : p x <;> simp [StringMemory.eval, he, h x List.mem_cons_self, hp]
      simpa [Bool.or_assoc] using ih hx fun x hx => h x (List.mem_cons_of_mem _ hx)
  cases xs with
  | nil => exact absurd rfl hne
  | cons x xs =>
    simpa [Lowering.anyOf] using hfold (h x List.mem_cons_self) fun x hx => h x (List.mem_cons_of_mem _ hx)

end

/-! ### Chains -/

/-- The line before a block of a chain of conditionals. -/
def chainLine (isFirst : Bool) (e : C.Expr) : Step :=
  .line (if isFirst then .ifThen e else .elseIf e)

/-- The block that a chain of conditionals executes, if any. -/
inductive Chosen (holds : C.Expr → Option Bool) : Bool → List Step → Option (List Step) → Prop
  | nothing : Chosen holds false [] none
  | otherwise {r block : List Step} (hr : splitBlock 0 r = some (block, [])) :
      Chosen holds false (.line .otherwise :: .line .openBlock :: r) (some block)
  | taken {isFirst : Bool} {s : Step} {e : C.Expr} {r block rest : List Step} (hs : s = chainLine isFirst e)
      (he : holds e = some true) (hr : splitBlock 0 r = some (block, rest)) :
      Chosen holds isFirst (s :: .line .openBlock :: r) (some block)
  | next {isFirst : Bool} {s : Step} {e : C.Expr} {r block rest : List Step} {chosen : Option (List Step)}
      (hs : s = chainLine isFirst e) (he : holds e = some false) (hr : splitBlock 0 r = some (block, rest))
      (hrest : Chosen holds false rest chosen) : Chosen holds isFirst (s :: .line .openBlock :: r) chosen

theorem chainLine_inj {e' : C.Expr} (h : chainLine isFirst e = chainLine isFirst e') : e = e' := by
  cases isFirst <;> cases h <;> rfl

theorem Chosen.unique {holds : C.Expr → Option Bool} {L : List Step} {t t' : Option (List Step)}
    (h : Chosen holds isFirst L t) (h' : Chosen holds isFirst L t') : t = t' := by
  induction h generalizing t' with
  | nothing => cases h'; rfl
  | otherwise hr =>
    cases h' with
    | otherwise hr' => cases hr.symm.trans hr'; rfl
    | taken hs | next hs => cases hs
  | taken hs he hr =>
    cases h' with
    | otherwise => cases hs
    | taken _ _ hr' => cases hr.symm.trans hr'; rfl
    | next hs' he' =>
      cases chainLine_inj (hs.symm.trans hs')
      cases he.symm.trans he'
  | next hs he hr _ ih =>
    cases h' with
    | otherwise => cases hs
    | taken hs' he' =>
      cases chainLine_inj (hs.symm.trans hs')
      cases he.symm.trans he'
    | next _ _ hr' hrest =>
      cases hr.symm.trans hr'
      exact ih hrest

/-- A case of a switch over strings, with the condition and the block that it gets. -/
structure StringBranch where
  case : SwitchCase
  condition : C.Expr
  block : List Step

/-- The chain of some branches and of the block of the default. -/
def chain (isFirst : Bool) : List StringBranch → Option (List Step) → List Step
  | [], none => []
  | [], some block => .line .otherwise :: .line .openBlock :: (block ++ [.line .closeBlock])
  | b :: bs, default =>
    chainLine isFirst b.condition :: .line .openBlock :: (b.block ++ .line .closeBlock :: chain false bs default)

/-- A chain executes the block of the first branch whose condition holds. -/
theorem chosen_chain {holds : C.Expr → Option Bool} {p : StringBranch → Bool} {bs : List StringBranch}
    {default : Option (List Step)} (hne : isFirst = true → bs ≠ []) (hp : ∀ b ∈ bs, holds b.condition = some (p b))
    (hbs : ∀ b ∈ bs, Nested b.block) (hdefault : ∀ block ∈ default, Nested block) :
    Chosen holds isFirst (chain isFirst bs default) (((bs.find? p).map (·.block)).or default) := by
  induction bs generalizing isFirst with
  | nil =>
    cases isFirst with
    | true => exact absurd rfl (hne rfl)
    | false =>
      cases default with
      | none => exact .nothing
      | some block => exact .otherwise ((hdefault block rfl).splitBlock_close [])
  | cons b bs ih =>
    have hclose := (hbs b List.mem_cons_self).splitBlock_close (chain false bs default)
    have hb := hp b List.mem_cons_self
    cases hpb : p b with
    | true =>
      rw [List.find?_cons_of_pos hpb]
      exact .taken rfl (hpb ▸ hb) hclose
    | false =>
      rw [List.find?_cons_of_neg (by simp [hpb])]
      exact .next rfl (hpb ▸ hb) hclose (ih nofun (fun b' hb' => hp b' (List.mem_cons_of_mem _ hb'))
        fun b' hb' => hbs b' (List.mem_cons_of_mem _ hb'))

/-! ### Conditions -/

variable {m : Module} {depth : Nat} {d d' : Draft} {matched : Value} {c : SwitchCase} {result : BranchResult}

/-- A string that is not empty has a number in a draft. -/
def Numbered (d : Draft) (p : String × Nat) : Prop :=
  p.1 ≠ "" → d.strings[p.2]? = some p.1

theorem Numbered.later {p : String × Nat} (h : Numbered d p) (hlater : Interns d d') : Numbered d' p := by
  obtain ⟨requests, hlater⟩ := hlater
  exact fun hne => hlater.getElem?_strings (h hne)

/-- An expression tests the pointers of a string against the values of a case, which have numbers in a draft. -/
def Tests (d : Draft) (matched : Value) (c : SwitchCase) (e : C.Expr) : Prop :=
  ∃ first last, ∃ numbers : List (String × Nat), matched.member (.member 0) = .ok first ∧
    matched.member (.member 1) = .ok last ∧ c.values = numbers.map (.str ·.1) ∧
    e = Lowering.anyOf (numbers.map fun p => stringTest first last p.1 p.2) ∧ ∀ p ∈ numbers, Numbered d p

theorem Tests.later (h : Tests d matched c e) (hlater : Interns d d') : Tests d' matched c e := by
  obtain ⟨first, last, numbers, hfirst, hlast, hvalues, he, hnumbers⟩ := h
  exact ⟨first, last, numbers, hfirst, hlast, hvalues, he, fun p hp => (hnumbers p hp).later hlater⟩

theorem Ensures.stringTest {value : Const} :
    Ensures d (Lowering.stringTest (.binary "-" last first) first value) fun e d' => ∃ p : String × Nat,
      value = .str p.1 ∧ e = CBackend.stringTest first last p.1 p.2 ∧ Numbered d' p := by
  cases value with
  | str s =>
    rw [Lowering.stringTest]
    by_cases hempty : s.isEmpty = true
    · rw [if_pos hempty]
      exact .pure ⟨(s, 0), rfl, (if_pos hempty).symm, fun hne => absurd (by simpa using hempty) hne⟩
    · rw [if_neg hempty]
      refine .bind (Q := fun _ _ => True) (fun _ _ _ => trivial) fun _ d₁ _ => ?_
      refine .bind (Q := fun n d₂ => Emit.internString s d₁ = .ok (n, d₂)) (fun _ _ h => h) fun n d₂ hn => .pure ?_
      exact ⟨(s, n), rfl, (if_neg hempty).symm, fun _ => (Interning.request hn .nil).getElem?_of_mem (by simp)⟩
  | _ => exact .throw

theorem Ensures.stringTests {values : List Const} :
    Ensures d (values.mapM (Lowering.stringTest (.binary "-" last first) first)) fun es d' =>
      ∃ numbers : List (String × Nat), values = numbers.map (.str ·.1) ∧
        es = numbers.map (fun p => CBackend.stringTest first last p.1 p.2) ∧ ∀ p ∈ numbers, Numbered d' p := by
  induction values generalizing d with
  | nil => exact .pure ⟨[], rfl, rfl, nofun⟩
  | cons value values ih =>
    rw [List.mapM_cons]
    refine .bind .stringTest ?_
    rintro _ d₁ ⟨p, rfl, rfl, hp⟩
    have hrest : Quietly false (values.mapM (Lowering.stringTest (.binary "-" last first) first)) _ _ :=
      .mapM fun _ _ => .stringTest
    refine .bind (Q := fun es d₂ => Interns d₁ d₂ ∧ _) (fun es d₂ h => ⟨(hrest d₁ nofun).interns es d₂ h, ih es d₂ h⟩) ?_
    rintro _ d₂ ⟨hlater, numbers, rfl, rfl, hnumbers⟩
    exact .pure ⟨p :: numbers, rfl, rfl, List.forall_mem_cons.2 ⟨hp.later hlater, hnumbers⟩⟩

theorem Ensures.member {v : Value} {i : Nat} : Ensures d (Emit.member v i) fun u _ => ∃ e k ty,
    v.member (.member i) = .ok e ∧ u = ⟨some ⟨k, e⟩, { v.partFlags with isTemporary := true }, .suffix, ty⟩ := by
  refine .bind (Q := fun _ _ => True) (fun _ _ _ => trivial) fun ty d₁ _ => .lift_bind fun e he => ?_
  refine Adds.newValue.ensures ?_
  rintro _ _ d₂ - ⟨-, rfl, -⟩
  exact ⟨e, _, ty, he, rfl⟩

theorem Ensures.stringCaseCondition : Ensures d (Lowering.stringCaseCondition matched c) fun v d' =>
    ∃ e, v.render = .ok e ∧ Tests d' matched c e := by
  refine .bind .member ?_
  rintro _ d₁ ⟨first, k₁, ty₁, hfirst, rfl⟩
  refine .bind .member ?_
  rintro _ d₂ ⟨last, k₂, ty₂, hlast, rfl⟩
  refine .lift_bind ?_
  rintro _ ⟨⟩
  refine .lift_bind ?_
  rintro _ ⟨⟩
  refine .bind .stringTests ?_
  rintro _ d₃ ⟨numbers, hvalues, rfl, hnumbers⟩
  refine .bind (Keeps.builtin (R := Eq) d₃) ?_
  rintro ty _ rfl
  rintro _ d₄ ⟨⟩
  exact ⟨_, rfl, first, last, numbers, hfirst, hlast, hvalues, rfl, hnumbers⟩

/-! ### The code of switches -/

/-- A branch of a switch is written as a block of code. -/
def Wrote (m : Module) (depth : Nat) (result : BranchResult) (id : ExprId) (block : List Step) : Prop :=
  ∃ d b d', Lowering.branch (walk m depth) id result d = .ok (b, d') ∧
    d'.func.steps.toList = d.func.steps.toList ++ block

theorem Lowering.BranchResult.placed_false : result.Placed false := by
  cases result with
  | nothing | pointer => trivial
  | storage => nofun

theorem Wrote.nested {id : ExprId} {block : List Step} (h : Wrote m depth result id block) : Nested block := by
  obtain ⟨d, b, d', hrun, hsteps⟩ := h
  obtain ⟨L, hL, hnested⟩ :=
    ((Steps.branch (Lowering.walk_bracketed false m depth) result.placed_false).framed_of_ok (b := false) hrun).steps
  rwa [List.append_cancel_left (hsteps.symm.trans hL)]

theorem Ensures.branchBlock {id : ExprId} : Ensures d (Lowering.branch (walk m depth) id result) fun _ d' =>
    Interns d d' ∧ ∃ block, Wrote m depth result id block ∧
      d'.func.steps.toList = d.func.steps.toList ++ block := by
  intro b d' hrun
  have hbranch : Stays false ⟨[], false⟩ (Lowering.branch (walk m depth) id result) :=
    .branch (Lowering.walk_bracketed false m depth) result.placed_false
  obtain ⟨block, hblock, -⟩ := (hbranch.framed_of_ok hrun).steps
  exact ⟨hbranch.interns_of_ok hrun, block, ⟨d, b, d', hrun, hblock⟩, hblock⟩

/-- The condition and the block of a case are written. -/
structure StringBranch.Written (m : Module) (depth : Nat) (result : BranchResult) (matched : Value) (d : Draft)
    (b : StringBranch) : Prop where
  condition : Tests d matched b.case b.condition
  block : Wrote m depth result b.case.expr b.block

theorem StringBranch.Written.later {b : StringBranch} (h : b.Written m depth result matched d) (hlater : Interns d d') :
    b.Written m depth result matched d' :=
  ⟨h.condition.later hlater, h.block⟩

/-- What stands before the line of a condition. -/
def chainEnd (isFirst : Bool) : List Step :=
  if isFirst then [] else [.line .closeBlock]

theorem Ensures.chainLine_bind {α : Type} {v : Value} {k : Unit → Emit α} {Φ : α → Draft → Prop}
    (hk : ∀ e d₁, v.render = .ok e → Interns d d₁ → d₁.func.steps.toList =
      d.func.steps.toList ++ (chainEnd isFirst ++ [chainLine isFirst e, .line .openBlock]) → Ensures d₁ (k ()) Φ) :
    Ensures d (if isFirst then Emit.beginIf v >>= k else Emit.beginElseIf v >>= k) Φ := by
  cases isFirst with
  | true =>
    refine .bind Adds.beginIf ?_
    rintro _ d₁ ⟨_, hsteps, hkept, e, he, rfl⟩
    exact hk e d₁ he hkept.strings hsteps
  | false =>
    refine .bind Adds.beginElseIf ?_
    rintro _ d₁ ⟨_, hsteps, hkept, e, he, rfl⟩
    exact hk e d₁ he hkept.strings hsteps

/-- The cases are written up to the end of the last block. -/
theorem Ensures.stringBranches (hne : isFirst = true → cases ≠ []) :
    Ensures d (Lowering.stringCases (walk m depth) matched result isFirst cases) fun _ d' => Interns d d' ∧
      ∃ bs : List StringBranch, bs.map (·.case) = cases ∧ (∀ b ∈ bs, b.Written m depth result matched d') ∧
        ∀ default, d'.func.steps.toList ++ .line .closeBlock :: chain false [] default =
          d.func.steps.toList ++ (chainEnd isFirst ++ chain isFirst bs default) := by
  induction cases generalizing d isFirst with
  | nil =>
    cases isFirst with
    | true => exact absurd rfl (hne rfl)
    | false => exact .pure ⟨.of_same ⟨rfl, rfl⟩, [], rfl, nofun, fun default => rfl⟩
  | cons c cases ih =>
    have hquiet : Quietly false (Lowering.stringCaseCondition matched c) := .stringCaseCondition
    refine .bind (Q := fun v d₁ => d₁.func = d.func ∧ Interns d d₁ ∧ ∃ e, v.render = .ok e ∧ Tests d₁ matched c e)
      (fun v d₁ h => ⟨((hquiet d nofun).ok v d₁ h).1.func, (hquiet d nofun).interns v d₁ h,
        Ensures.stringCaseCondition v d₁ h⟩) ?_
    rintro v d₁ ⟨hfunc, hlater₁, e, he, htests⟩
    refine .chainLine_bind fun e' d₂ he' hlater₂ hsteps₂ => ?_
    cases he.symm.trans he'
    refine .bind .branchBlock ?_
    rintro _ d₃ ⟨hlater₃, block, hblock, hsteps₃⟩
    refine .bind (ih nofun) ?_
    rintro _ d₄ ⟨hlater₄, bs, hcases, hbs, hsteps₄⟩
    have hlater := hlater₂.trans (hlater₃.trans hlater₄)
    refine .pure ⟨hlater₁.trans hlater, ⟨c, e, block⟩ :: bs, by rw [List.map_cons, hcases], ?_, fun default => ?_⟩
    · exact List.forall_mem_cons.2 ⟨⟨htests.later hlater, hblock⟩, hbs⟩
    · rw [hsteps₄ default, hsteps₃, hsteps₂, hfunc]
      simp [chain, chainEnd]

/-- A switch over strings is written as the branch of its default, or as a chain. -/
theorem Ensures.stringChain :
    Ensures d (Lowering.stringSwitch (walk m depth) matched cases default result) fun _ d' => ∃ u d₁ L taken,
      Emit.materialize matched d = .ok (u, d₁) ∧ d'.func.steps.toList = d₁.func.steps.toList ++ L ∧
      Option.Rel (Wrote m depth result) default taken ∧
      ((∀ c ∈ cases, c.values = []) ∧ L = taken.getD [] ∨
        ∃ bs : List StringBranch, bs ≠ [] ∧ bs.map (·.case) = cases.filter (!·.values.isEmpty) ∧
          (∀ b ∈ bs, b.Written m depth result u d') ∧ L = chain true bs taken) := by
  refine .bind (Q := fun u d₁ => Emit.materialize matched d = .ok (u, d₁)) (fun _ _ h => h) fun u d₁ hu => ?_
  dsimp only
  have hempty (hfilter : cases.filter (!·.values.isEmpty) = []) : ∀ c ∈ cases, c.values = [] := by
    simpa [List.filter_eq_nil_iff] using hfilter
  cases hfilter : cases.filter (!·.values.isEmpty) with
  | nil =>
    cases default with
    | none => exact .pure ⟨u, d₁, [], none, hu, (List.append_nil _).symm, .none, .inl ⟨hempty hfilter, rfl⟩⟩
    | some id =>
      refine .mono .branchBlock ?_
      rintro _ d' ⟨-, block, hblock, hsteps⟩
      exact ⟨u, d₁, block, some block, hu, hsteps, .some hblock, .inl ⟨hempty hfilter, rfl⟩⟩
  | cons c rest =>
    refine .bind (.stringBranches nofun) ?_
    rintro _ d₂ ⟨-, bs, hcases, hbs, hsteps₂⟩
    have hne : bs ≠ [] := by
      rintro rfl
      cases hcases
    cases default with
    | none =>
      refine .pure_bind (.bind Adds.closeBlock ?_)
      rintro _ d₃ ⟨_, hsteps₃, hkept₃, rfl⟩
      exact .pure ⟨u, d₁, chain true bs none, none, hu, hsteps₃.trans (hsteps₂ none), .none,
        .inr ⟨bs, hne, hcases, fun b hb => (hbs b hb).later hkept₃.strings, rfl⟩⟩
    | some id =>
      refine .bind Adds.beginElse ?_
      rintro _ d₃ ⟨_, hsteps₃, hkept₃, rfl⟩
      refine .bind .branchBlock ?_
      rintro _ d₄ ⟨hlater₄, block, hblock, hsteps₄⟩
      refine .bind Adds.closeBlock ?_
      rintro _ d₅ ⟨_, hsteps₅, hkept₅, rfl⟩
      have hlater := hkept₃.strings.trans (hlater₄.trans hkept₅.strings)
      refine .pure ⟨u, d₁, chain true bs (some block), some block, hu, ?_, .some hblock,
        .inr ⟨bs, hne, hcases, fun b hb => (hbs b hb).later hlater, rfl⟩⟩
      have hsteps := hsteps₂ (some block)
      simp only [chainEnd, if_true, List.nil_append] at hsteps
      rw [← hsteps, hsteps₅, hsteps₄, hsteps₃]
      simp [chain]

/-! ### Selection -/

/-- The arrays of the string constants of a draft hold the bytes that their literals are read as. -/
def StringMemory.HoldsConstants (E : StringMemory) (d : Draft) : Prop :=
  ∀ n s bytes, d.DefinesString n s → C.readString (C.stringLiteral s) = some (bytes, []) →
    bytes <+: E.bytes (.string n)

/-- Whether a condition holds. -/
def StringMemory.holds (E : StringMemory) (e : C.Expr) : Option Bool :=
  (E.eval e).map (· != 0)

/-- Whether a value is the string that consists of some bytes. -/
def IR.Const.isString (bytes : List UInt8) : Const → Bool
  | .str s => bytes == utf8Bytes s
  | _ => false

/-- The branch for a string: that of the first case which has it among its values, or the default. -/
def selected? (bytes : List UInt8) (cases : List SwitchCase) (default : Option ExprId) : Option ExprId :=
  ((cases.find? (·.values.any (·.isString bytes))).map (·.expr)).or default

theorem Tests.holds {E : StringMemory} {bytes : List UInt8} (h : Tests d matched c e) (hne : c.values ≠ [])
    (hd : d.InternedInOrder) (hE : E.HoldsConstants d) (hfirst : matched.member (.member 0) = .ok first)
    (hlast : matched.member (.member 1) = .ok last) (hbytes : E.Holds first last bytes) :
    E.holds e = some (c.values.any (·.isString bytes)) := by
  obtain ⟨first', last', numbers, hfirst', hlast', hvalues, rfl, hnumbers⟩ := h
  cases hfirst.symm.trans hfirst'
  cases hlast.symm.trans hlast'
  have hconstant (p : String × Nat) (hp : p ∈ numbers) : utf8Bytes p.1 <+: E.bytes (.string p.2) := by
    by_cases hempty : p.1 = ""
    · have hnil : utf8Bytes p.1 = [] := List.eq_nil_of_length_eq_zero (by rw [length_utf8Bytes, hempty]; rfl)
      exact hnil ▸ List.nil_prefix
    · refine hE p.2 p.1 _ (hd.definesString (hnumbers p hp hempty)) ?_
      simpa using (C.readsBack p.1).bytes []
  have hany : E.eval (Lowering.anyOf (numbers.map fun p => stringTest first last p.1 p.2)) =
      some ((numbers.any fun p => bytes == utf8Bytes p.1).toNat : Int) :=
    eval_anyOf (by rintro rfl; exact hne hvalues) fun p hp => eval_stringTest hbytes (hconstant p hp)
  rw [StringMemory.holds, hany, hvalues, List.any_map]
  cases h : numbers.any fun p => bytes == utf8Bytes p.1 <;> simpa [Function.comp_def, IR.Const.isString] using h

/-- The code of a switch over strings executes the right branch. If no case has a value, it is the branch of the default
or nothing. Otherwise it is a chain of conditionals on the pointers of the matched string, and it executes the block of
the branch for whichever bytes are between them, while the arrays hold the string constants of a draft. -/
structure Selects (m : Module) (depth : Nat) (result : BranchResult) (matched : Value) (cases : List SwitchCase)
    (default : Option ExprId) (d : Draft) (L : List Step) : Prop where
  plain : (∀ c ∈ cases, c.values = []) → ∃ taken, Option.Rel (Wrote m depth result) default taken ∧ L = taken.getD []
  chain : (∃ c ∈ cases, c.values ≠ []) → ∃ first last, matched.member (.member 0) = .ok first ∧
    matched.member (.member 1) = .ok last ∧ ∀ (E : StringMemory) (bytes : List UInt8), E.HoldsConstants d →
      E.Holds first last bytes → ∃ taken, Option.Rel (Wrote m depth result) (selected? bytes cases default) taken ∧
        ∀ chosen, Chosen E.holds true L chosen ↔ chosen = taken

/-- The first branch that is taken is that of the first case with a fitting value. -/
theorem selected?_eq {bytes : List UInt8} {bs : List StringBranch}
    (hcases : bs.map (·.case) = cases.filter (!·.values.isEmpty)) : selected? bytes cases default =
      ((bs.find? (·.case.values.any (·.isString bytes))).map (·.case.expr)).or default := by
  have hfilter : cases.find? (·.values.any (·.isString bytes)) =
      (cases.filter (!·.values.isEmpty)).find? (·.values.any (·.isString bytes)) := by
    rw [List.find?_filter]
    congr 1
    funext c
    cases c.values with
    | nil => rfl
    | cons => simp only [List.isEmpty_cons, Bool.not_false, true_and, Bool.decide_eq_true]
  rw [selected?, hfilter, ← hcases, List.find?_map, Option.map_map]
  rfl

/-- A written chain selects the right branch. -/
theorem selects_chain {bs : List StringBranch} {block : Option (List Step)} (hd : d.InternedInOrder) (hne : bs ≠ [])
    (hcases : bs.map (·.case) = cases.filter (!·.values.isEmpty)) (hbs : ∀ b ∈ bs, b.Written m depth result matched d)
    (hdefault : Option.Rel (Wrote m depth result) default block) :
    Selects m depth result matched cases default d (chain true bs block) where
  plain hempty := by
    rw [List.filter_eq_nil_iff.2 fun c hc => by simp [hempty c hc]] at hcases
    exact absurd (List.map_eq_nil_iff.1 hcases) hne
  chain _ := by
    obtain ⟨b, hb⟩ := List.exists_mem_of_ne_nil bs hne
    obtain ⟨first, last, -, hfirst, hlast, -⟩ := (hbs b hb).condition
    refine ⟨first, last, hfirst, hlast, fun E bytes hE hbytes => ?_⟩
    have hvalues (b : StringBranch) (hb : b ∈ bs) : b.case.values ≠ [] := by
      have hmem : b.case ∈ cases.filter (!·.values.isEmpty) := hcases ▸ List.mem_map_of_mem hb
      simpa using (List.mem_filter.1 hmem).2
    have hblock : ∀ L ∈ block, Nested L := by
      cases hdefault with
      | none => nofun
      | some hwrote => rintro _ ⟨⟩; exact hwrote.nested
    have hchosen : Chosen E.holds true (CBackend.chain true bs block) _ := chosen_chain (fun _ => hne)
      (fun b hb => (hbs b hb).condition.holds (hvalues b hb) hd hE hfirst hlast hbytes)
      (fun b hb => (hbs b hb).block.nested) hblock
    refine ⟨_, ?_, fun chosen => ⟨fun h => h.unique hchosen, fun h => h ▸ hchosen⟩⟩
    rw [selected?_eq hcases]
    cases hfind : bs.find? (·.case.values.any (·.isString bytes)) with
    | none => exact hdefault
    | some b => exact .some (hbs b (List.mem_of_find?_eq_some hfind)).block

/-- A switch over strings executes the branch of the first case that has the matched string among its values, or the
default, or no branch. Its code comes after that of the matched value and of the storage for its result. -/
theorem string_switches_select {ty : Ty} {category : Category} {matched : ExprId} {cases : List SwitchCase}
    {default : Option ExprId} {isComplete : Bool} {dest : Option Value} {v : Value} {dEnd : Draft}
    (hd : d.InternedInOrder) (hty : Lowering.exprTy m matched = .ok .str)
    (hrun : Lowering.switchOn m (walk m depth) ty category matched cases default isComplete dest d = .ok (v, d'))
    (hlater : Interns d' dEnd) :
    ∃ u d₁ result d₂ u' d₃ L d₄ b, Lowering.condition (walk m depth) matched d = .ok (u, d₁) ∧
      Lowering.beginBranches m ty category dest d₁ = .ok (result, d₂) ∧ Emit.materialize u d₂ = .ok (u', d₃) ∧
      d₄.func.steps.toList = d₃.func.steps.toList ++ L ∧ Lowering.joinBranches b result d₄ = .ok (v, d') ∧
      Selects m depth result u' cases default dEnd L := by
  have hswitch : Stays false ⟨[], false⟩
      (Lowering.switchOn m (walk m depth) ty category matched cases default isComplete dest) :=
    .switchOn (Lowering.walk_bracketed false m depth) .of_false
  obtain ⟨requests, hend⟩ := (hswitch.interns_of_ok hrun).trans hlater
  unfold Lowering.switchOn at hrun
  rw [hty] at hrun
  obtain ⟨⟨u, d₁⟩, hu, hrun⟩ := exists_of_bind_eq_ok hrun
  obtain ⟨⟨result, d₂⟩, hresult, hrun⟩ := exists_of_bind_eq_ok hrun
  obtain ⟨⟨b, d₄⟩, hb, hrun⟩ := exists_of_bind_eq_ok hrun
  obtain ⟨u', d₃, L, block, hu', hsteps, hdefault, hcode⟩ := Ensures.stringChain b d₄ hb
  refine ⟨u, d₁, result, d₂, u', d₃, L, d₄, b, hu, hresult, hu', hsteps, hrun, ?_⟩
  obtain ⟨hempty, rfl⟩ | ⟨bs, hne, hcases, hbs, rfl⟩ := hcode
  · exact ⟨fun _ => ⟨block, hdefault, rfl⟩, fun ⟨c, hc, hvalues⟩ => absurd (hempty c hc) hvalues⟩
  · have hjoin : Stays false ⟨[], false⟩ (Lowering.joinBranches b result) := .joinBranches
    have hdone : Interns d₄ dEnd := (hjoin.interns_of_ok hrun).trans hlater
    exact selects_chain (hend.internedInOrder hd) hne hcases (fun b hb => (hbs b hb).later hdone) hdefault

/-- A module with a string to match and the values of three branches. -/
def switchModule : Module where
  exprs := #[⟨.constant (.str "a"), .str, .rvalue, {}⟩, ⟨.constant (.uint 1), .builtin .u8, .rvalue, {}⟩,
    ⟨.constant (.uint 2), .builtin .u8, .rvalue, {}⟩, ⟨.constant (.uint 3), .builtin .u8, .rvalue, {}⟩]

/-- Strings with the same beginning, a case without values, and strings that are empty, repeated or not ASCII. -/
def switchCases : List SwitchCase :=
  [⟨[.str "ab", .str "a"], ⟨1⟩⟩, ⟨[], ⟨2⟩⟩, ⟨[.str "", .str "a", .str "\x00é"], ⟨2⟩⟩]

/-- The string `a` is in two cases, and the empty one in one. -/
theorem string_switches_select_cases : ∃ d v d' result u L,
    Lowering.switchOn switchModule (walk switchModule 2) (.builtin .u8) .rvalue ⟨0⟩ switchCases (some ⟨3⟩) false none d =
      .ok (v, d') ∧ Selects switchModule 2 result u switchCases (some ⟨3⟩) d' L ∧
    selected? [0x61] switchCases (some ⟨3⟩) = some ⟨1⟩ ∧ selected? [] switchCases (some ⟨3⟩) = some ⟨2⟩ ∧
    selected? [0x62] switchCases (some ⟨3⟩) = some ⟨3⟩ := by
  have hok : (do
      let d ← Draft.new {}
      Lowering.switchOn switchModule (walk switchModule 2) (.builtin .u8) .rvalue ⟨0⟩ switchCases (some ⟨3⟩) false none
        d).isOk = true := by
    decide +kernel
  obtain ⟨⟨v, d'⟩, hrun⟩ := exists_of_isOk hok
  obtain ⟨d, hnew, hrun⟩ := exists_of_bind_eq_ok hrun
  obtain ⟨-, -, result, -, u, -, L, -, -, -, -, -, -, -, hselects⟩ := string_switches_select
    (Draft.internedInOrder_of_new hnew) (by rfl) hrun (.of_same ⟨rfl, rfl⟩)
  exact ⟨d, v, d', result, u, L, hrun, hselects, by decide +kernel, by decide +kernel, by decide +kernel⟩

end CBackend
