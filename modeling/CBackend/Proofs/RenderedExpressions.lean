import CBackend.Lowering.Constants
import CBackend.Proofs.Lowering.Runs
import CBackend.Proofs.Reading.Printing

/-!
# Rendered expressions read back

The values that lowering makes carry an expression and a tag with its precedence, and the parentheses
around a value are chosen from the tag alone. This is enough: whatever is built out of variables,
references and integer constants by taking members, elements, addresses and casts, by calls, binary
operators and conditionals, a C compiler reads its text as the tree that was built, and as no other.

## Main definitions

* `Builds` : the values that are built, and their trees.
* `Carries` : the text and the tag of a value agree with its tree.

## Main results

* `Carries.renderParen` : a value between the parentheses that its tag asks for.
* `Builds.carries` : built values carry their trees.
* `rendered_expressions_read_back` : the texts of a built value are read as its tree.
-/

namespace CBackend

open C (CType Precedence TypeTable Tree Means ReadsAs ReadsConditional IsIdentifier Token)

/-! ### Trees -/

namespace C.Tree

/-- The address of what a tree stands for; that of what a pointer points to is the pointer. -/
def address : Tree → Tree
  | unary op t => if op = "*" then t else unary "&" (unary op t)
  | t => unary "&" t

/-- An integer with its sign. -/
def ofInt : Int → Tree
  | .ofNat n => number (toString n)
  | .negSucc n => unary "-" (number (toString (n + 1)))

/-- A signed constant; the least one is written as a difference. -/
def ofSigned (k : Int64) : Tree :=
  if k == Int64.minValue then binary "-" (ofInt (k.toInt + 1)) (number "1") else ofInt k.toInt

end C.Tree

/-! ### Building values -/

/-- A conditional, or a value that binds tighter than one. -/
def Value.FitsElse (v : Value) : Prop :=
  v.effectivePrecedence.rank < Precedence.assignment.rank ∨ ∃ c t e, v.render = .ok (.conditional c t e)

/-- The values that are built from names and integer constants, and the trees that are meant. -/
inductive Builds (types : TypeTable) : Value → Tree → Prop
  | name {n ty d v d'} (hn : IsIdentifier n.spelling) (h : Emit.variableValue n ty d = .ok (v, d')) :
      Builds types v (.name n.spelling)
  /-- What a pointer variable points to. -/
  | reference {n ty isConst d v d'} (hn : IsIdentifier n.spelling)
      (h : Emit.referenceValue n ty isConst d = .ok (v, d')) : Builds types v (.unary "*" (.name n.spelling))
  | unsigned {k ty d v d'} (hty : ty.isBraced = false)
      (h : Emit.rvalue (Lowering.unsignedExpr k) ty (Lowering.unsignedExpr k).constantPrecedence d = .ok (v, d')) :
      Builds types v (.number s!"{k.toNat}u")
  | signed {k ty d v d'} (hty : ty.isBraced = false)
      (h : Emit.rvalue (Lowering.signedExpr k) ty (Lowering.signedExpr k).constantPrecedence d = .ok (v, d')) :
      Builds types v (.ofSigned k)
  | integer {k ty d v d'} (hty : ty.isBraced = false) (h : Emit.integer ty k d = .ok (v, d')) :
      Builds types v (.number (toString k))
  | member {u t k d v d'} (hu : Builds types u t) (h : Emit.member u k d = .ok (v, d')) :
      Builds types v (.member t (C.Field.member k).spelling)
  | element {u t i s d v d'} (hu : Builds types u t) (hi : Builds types i s)
      (h : Emit.element u i d = .ok (v, d')) :
      Builds types v (.index (.member t C.Field.elements.spelling) s)
  | pointerElement {u t i s d v d'} (hu : Builds types u t) (hi : Builds types i s)
      (h : Emit.pointerElement u i d = .ok (v, d')) : Builds types v (.index t s)
  | addressOf {u t d v d'} (hu : Builds types u t) (hlvalue : u.isRvalue = false)
      (h : Emit.addressOf u d = .ok (v, d')) : Builds types v t.address
  /-- A value without an address is put into a local variable first. -/
  | addressOfLocal {u t d v d'} (hu : Builds types u t) (hrvalue : u.isRvalue = true)
      (h : Emit.addressOf u d = .ok (v, d')) :
      Builds types v (.unary "&" (.name (C.Name.localVar d.func.counter).spelling))
  | cast {u t ty d v d'} (hu : Builds types u t) (hty : (types.headName? ty.head).isSome = true)
      (h : Emit.cast u ty d = .ok (v, d')) : Builds types v (.cast (types.typeName ty) t)
  | call {u t callee es ty d v d'} {args : List Value} {ts : List Tree} (hu : Builds types u t)
      (hlen : args.length = ts.length) (hargs : ∀ p ∈ args.zip ts, Builds types p.1 p.2)
      (hcallee : u.asCallee = .ok callee) (hes : args.mapM Value.asInitializer = .ok es)
      (h : Emit.rvalue (.call callee es) ty .suffix d = .ok (v, d')) : Builds types v (.call t ts)
  /-- An operator of each of the levels of binary operators. -/
  | binary {u t w s op p e ty d v d'} (hu : Builds types u t) (hw : Builds types w s)
      (hop : (op, p) ∈ C.binaryOperators) (he : u.binary op w p = .ok e)
      (h : Emit.rvalue e ty p d = .ok (v, d')) : Builds types v (.binary op t s)
  | conditional {c a b tc ta tb ec ea eb ty d v d'} (hc : Builds types c tc) (ha : Builds types a ta)
      (hb : Builds types b tb) (hcond : c.effectivePrecedence.rank < Precedence.assignment.rank)
      (helse : b.FitsElse) (hec : c.render = .ok ec) (hea : a.render = .ok ea) (heb : b.render = .ok eb)
      (h : Emit.rvalue (.conditional ec ea eb) ty .assignment d = .ok (v, d')) :
      Builds types v (.conditional tc ta tb)

/-! ### What values carry -/

/-- Whether an expression is a conditional. -/
def C.Expr.isConditional : C.Expr → Bool
  | conditional .. => true
  | _ => false

/-- The text and the tag of a value agree with its tree. -/
inductive Carries (types : TypeTable) (v : Value) : Tree → Prop
  | direct {c T t} (hcontent : v.content = some c) (hdirect : v.flags.isIndirect = false)
      (h : Means types v.precedence c.expr T t)
      -- what has an address is a name or has suffixes
      (hplace : v.isRvalue = false → v.precedence.rank ≤ 1 ∧ t.address = .unary "&" t)
      (hbraced : v.ty.isBraced = true → c.expr.isLiteral = false)
      (hcond : c.expr.isConditional = true → v.precedence = .assignment ∧ ReadsConditional T t) :
      Carries types v t
  | pointed {c T t} (hcontent : v.content = some c) (hindirect : v.flags.isIndirect = true)
      (hatom : v.precedence = .atom) (hplace : v.isRvalue = false)
      (h : Means types .atom c.expr T t) (hname : c.expr.isLiteral = false ∧ c.expr.isConditional = false) :
      Carries types v (.unary "*" t)

namespace Carries

variable {types : TypeTable} {v u w : Value} {t s : Tree} {d : Draft} {p q : Precedence} {e : C.Expr}
  {T : List Token} {ty : CType} {k : Nat}

/-- The expression of a value, at its level. -/
theorem render (h : Carries types v t) :
    ∃ e T, v.render = .ok e ∧ Means types v.effectivePrecedence e T t ∧
      (e.isConditional = true → v.effectivePrecedence = .assignment ∧ ReadsConditional T t) := by
  cases h with
  | @direct c T t hcontent hdirect h _ _ hcond =>
    refine ⟨c.expr, T, ?_, ?_, by simpa [Value.effectivePrecedence, hdirect] using hcond⟩
    · simp [Value.render, Value.inner, hcontent, hdirect]
    · simpa [Value.effectivePrecedence, hdirect] using h
  | @pointed c T t hcontent hindirect hatom _ h =>
    refine ⟨.deref c.expr, .operator "*" :: T, ?_, ?_, fun hcond => by cases hcond⟩
    · have hparens : Precedence.atom.needsUnaryParens = false := rfl
      simp [Value.render, Value.inner, hcontent, hindirect, hatom, hparens, C.Expr.parenIf]
    · simpa [Value.effectivePrecedence, hindirect] using (h.looser (by decide)).deref

/-- A value between the parentheses that its tag asks for. -/
theorem renderParen (h : Carries types v t) (parens : Bool)
    (hq : parens = false → v.effectivePrecedence.rank ≤ q.rank) :
    ∃ e T, v.renderParen parens = .ok e ∧ Means types q e T t := by
  obtain ⟨e, T, he, hmeans, -⟩ := h.render
  cases parens with
  | false => exact ⟨e, T, by simp [Value.renderParen, he, C.Expr.parenIf], hmeans.looser (hq rfl)⟩
  | true =>
    have hparen := (hmeans.looser (q := .comma) (by cases v.effectivePrecedence <;> decide)).paren
    exact ⟨.paren e, _, by simp [Value.renderParen, he, C.Expr.parenIf], hparen.looser (Nat.zero_le _)⟩

theorem asUnaryOperand (h : Carries types v t) :
    ∃ e T, v.asUnaryOperand = .ok e ∧ Means types .unary e T t :=
  h.renderParen _ fun hp => by simpa [Precedence.needsUnaryParens, Precedence.looser] using hp

theorem asInitializer (h : Carries types v t) :
    ∃ e T, v.asInitializer = .ok e ∧ Means types .assignment e T t :=
  h.renderParen _ fun hp => by simpa [Precedence.needsInitializerParens, Precedence.looser] using hp

theorem asSuffixOperand (h : Carries types v t) :
    ∃ e T, v.asSuffixOperand = .ok e ∧ Means types .suffix e T t :=
  h.renderParen _ fun hp => by simpa [Precedence.looser] using hp

theorem index (h : Carries types v t) : ∃ e T, v.render = .ok e ∧ Means types .comma e T t := by
  obtain ⟨e, T, he, hmeans, -⟩ := h.render
  exact ⟨e, T, he, hmeans.looser (by cases v.effectivePrecedence <;> decide)⟩

/-- A binary operator between two values. -/
theorem binary (h : Carries types u t) (hw : Carries types w s) {op : String} (hop : (op, p) ∈ C.binaryOperators) :
    ∃ e T, u.binary op w p = .ok e ∧ Means types p e T (.binary op t s) ∧ e.isLiteral = false ∧
      e.isConditional = false := by
  have hrank : p.tighter.rank = p.rank - 1 := by cases p <;> rfl
  by_cases hassign : p = .assignment
  · subst hassign
    have hlhs := h.renderParen (q := .logicalOr) (u.effectivePrecedence.looserOrEqual .assignment) fun hp => by
      simp only [Precedence.looserOrEqual, decide_eq_false_iff_not] at hp
      exact Nat.le_of_lt_succ (Nat.lt_of_not_le hp)
    have hrhs := hw.renderParen (q := .assignment) (w.effectivePrecedence.looser .assignment) fun hp => by
      simpa [Precedence.looser] using hp
    obtain ⟨e, T, he, hmeans⟩ := hlhs
    obtain ⟨e', T', he', hmeans'⟩ := hrhs
    exact ⟨_, _, by simp [Value.binary, Precedence.binaryParens?, he, he']; rfl, hmeans.assign hop hmeans', rfl, rfl⟩
  · have hleft : p.groupsLeft = true := by
      have hall : ∀ x ∈ C.binaryOperators, x.2 = .assignment ∨ x.2.groupsLeft = true := by decide
      exact (hall _ hop).resolve_left hassign
    have hlhs := h.renderParen (q := p) (u.effectivePrecedence.looser p) fun hp => by
      simpa [Precedence.looser] using hp
    have hrhs := hw.renderParen (q := p.tighter) (w.effectivePrecedence.looserOrEqual p) fun hp => by
      simp only [Precedence.looserOrEqual, decide_eq_false_iff_not] at hp
      omega
    obtain ⟨e, T, he, hmeans⟩ := hlhs
    obtain ⟨e', T', he', hmeans'⟩ := hrhs
    refine ⟨.binary op e e', _, ?_, hmeans.binary hleft hop hmeans', rfl, rfl⟩
    have hparens : Precedence.binaryParens? u.effectivePrecedence w.effectivePrecedence p =
        some (u.effectivePrecedence.looser p, w.effectivePrecedence.looserOrEqual p) := by
      cases p <;> first | exact absurd hleft (by decide) | rfl
    simp only [Value.binary, hparens, he, he']
    rfl

/-! #### New values -/

theorem of_newValue {c : C.Expr} {flags : ValueFlags}
    (hΦ : ∀ id, Carries types { content := some ⟨id, c⟩, flags, precedence := p, ty } t) :
    Ensures d (Emit.newValue c flags p ty) fun v _ => Carries types v t := by
  rintro v d' ⟨⟩
  exact hΦ _

/-- An expression without an address. -/
theorem rvalue (h : Means types p e T t) (hbraced : ty.isBraced = true → e.isLiteral = false)
    (hcond : e.isConditional = true → p = .assignment ∧ ReadsConditional T t) :
    Ensures d (Emit.rvalue e ty p) fun v _ => Carries types v t :=
  of_newValue fun _ => .direct rfl rfl h (fun hr => by cases hr) hbraced hcond

/-- A part of a value. -/
theorem place {flags : ValueFlags} (h : Means types .suffix e T t) (haddress : t.address = .unary "&" t)
    (hliteral : e.isLiteral = false) (hcond : e.isConditional = false) (hflags : flags.isIndirect = false) :
    Ensures d (Emit.inlineValue e ty .suffix flags) fun v _ => Carries types v t :=
  of_newValue fun _ => .direct rfl hflags h (fun _ => ⟨Nat.le_refl _, haddress⟩) (fun _ => hliteral)
    fun hc => by simp [hcond] at hc

theorem variableValue {n : C.Name} (hn : IsIdentifier n.spelling) :
    Ensures d (Emit.variableValue n ty) fun v _ => Carries types v (.name n.spelling) :=
  of_newValue fun _ => .direct rfl rfl (.name hn) (fun _ => ⟨Nat.zero_le _, rfl⟩) (fun _ => rfl) fun hc => by cases hc

theorem referenceValue {n : C.Name} {isConst : Bool} (hn : IsIdentifier n.spelling) :
    Ensures d (Emit.referenceValue n ty isConst) fun v _ => Carries types v (.unary "*" (.name n.spelling)) :=
  of_newValue fun _ => .pointed rfl rfl rfl rfl (.name hn) ⟨rfl, rfl⟩

/-! #### Constants -/

theorem unsigned {k : UInt64} (hty : ty.isBraced = false) :
    Ensures d (Emit.rvalue (Lowering.unsignedExpr k) ty (Lowering.unsignedExpr k).constantPrecedence)
      fun v _ => Carries types v (.number s!"{k.toNat}u") :=
  rvalue (.unsigned k.toNat) (fun hb => by simp [hty] at hb) fun hc => by cases hc

theorem means_int (types : TypeTable) (k : Int) : ∃ T, Means types (C.Expr.literal (.int k)).constantPrecedence (.literal (.int k)) T
    (.ofInt k) := by
  cases k with
  | ofNat n =>
    have hsign : (C.Literal.int (.ofNat n)).isNegative = false := by simp [C.Literal.isNegative]
    rw [C.Expr.constantPrecedence, hsign]
    exact ⟨_, Means.nat n⟩
  | negSucc n =>
    have hsign : (C.Literal.int (.negSucc n)).isNegative = true := by
      simp [C.Literal.isNegative, Int.negSucc_lt_zero]
    rw [C.Expr.constantPrecedence, hsign]
    exact ⟨_, Means.negative n⟩

theorem signed {k : Int64} (hty : ty.isBraced = false) :
    Ensures d (Emit.rvalue (Lowering.signedExpr k) ty (Lowering.signedExpr k).constantPrecedence)
      fun v _ => Carries types v (.ofSigned k) := by
  unfold Lowering.signedExpr Tree.ofSigned
  split
  · obtain ⟨T, hT⟩ := means_int types (k.toInt + 1)
    have hone : Means types .atom (.nat 1) _ _ := .nat 1
    have hop : ("-", Precedence.additive) ∈ C.binaryOperators := by decide
    have htag : (C.Expr.literal (.int (k.toInt + 1))).constantPrecedence.rank ≤ Precedence.additive.rank := by
      rw [C.Expr.constantPrecedence]
      split <;> decide
    have hminus := Means.binary rfl hop (hT.looser htag) (hone.looser (by decide))
    exact rvalue (hminus.looser (by decide)).paren (fun _ => rfl) fun hc => by cases hc
  · obtain ⟨T, hT⟩ := means_int types k.toInt
    exact rvalue hT (fun hb => by simp [hty] at hb) fun hc => by cases hc

theorem integer (hty : ty.isBraced = false) :
    Ensures d (Emit.integer ty k) fun v _ => Carries types v (.number (toString k)) :=
  rvalue (.nat k) (fun hb => by simp [hty] at hb) fun hc => by cases hc

/-! #### Parts -/

/-- A member of a value whose type has members. -/
theorem memberExpr (h : Carries types u t) (hbraced : u.ty.isBraced = true) (field : C.Field) :
    ∃ e T, u.member field = .ok e ∧ Means types .suffix e T (.member t field.spelling) ∧ e.isLiteral = false ∧
      e.isConditional = false := by
  cases h with
  | @direct c T t hcontent hdirect h _ hliteral =>
    by_cases hparens : u.precedence.looser .suffix = true
    · have hparen := (h.looser (q := .comma) (by cases u.precedence <;> decide)).paren
      refine ⟨.member (.paren c.expr) field, _, ?_, (hparen.looser (by decide)).member rfl, rfl, rfl⟩
      simp [Value.member, Value.inner, hcontent, hdirect, hparens, C.Expr.parenIf]
    · have hsuffix := h.looser (q := .suffix) (by simpa [Precedence.looser] using hparens)
      refine ⟨.member c.expr field, _, ?_, hsuffix.member (hliteral hbraced), rfl, rfl⟩
      simp [Value.member, Value.inner, hcontent, hdirect, hparens, C.Expr.parenIf]
  | @pointed c T t hcontent hindirect hatom _ h =>
    have hparens : Precedence.atom.looser .suffix = false := rfl
    refine ⟨.arrow c.expr field, _, ?_, (h.looser (by decide)).arrow, rfl, rfl⟩
    simp [Value.member, Value.inner, hcontent, hindirect, hatom, hparens, C.Expr.parenIf]

theorem isBraced_of_memberType :
    Ensures d (Emit.memberType ty k) fun _ _ => ty.isBraced = true := by
  refine .get_bind ?_
  dsimp only
  split
  · next hstruct => exact fun _ _ _ => by simp [CType.isBraced, hstruct]
  · next harray => exact fun _ _ _ => by simp [CType.isBraced, harray]
  · exact .throw

theorem isBraced_of_arrayShape :
    Ensures d (Emit.arrayShape ty) fun _ _ => ty.isBraced = true := by
  refine .get_bind ?_
  dsimp only
  split
  · next ha => exact .lift fun _ _ => by simp [CType.isBraced, ha]
  · exact .throw

theorem member (h : Carries types u t) :
    Ensures d (Emit.member u k) fun v _ => Carries types v (.member t (C.Field.member k).spelling) := by
  refine .bind isBraced_of_memberType fun ty d' hbraced => ?_
  obtain ⟨e, T, he, hmeans, hliteral, hcond⟩ := h.memberExpr hbraced (.member k)
  refine .lift_bind fun e' he' => ?_
  cases he.symm.trans he'
  exact place hmeans rfl hliteral hcond rfl

theorem element (h : Carries types u t) (hi : Carries types w s) :
    Ensures d (Emit.element u w) fun v _ => Carries types v (.index (.member t C.Field.elements.spelling) s) := by
  refine .bind isBraced_of_arrayShape fun shape d' hbraced => ?_
  obtain ⟨e, T, he, hmeans, -, -⟩ := h.memberExpr hbraced .elements
  obtain ⟨i, I, hi, hindex⟩ := hi.index
  refine .lift_bind fun e' he' => .lift_bind fun i' hi' => ?_
  cases he.symm.trans he'
  cases hi.symm.trans hi'
  exact place (hmeans.index hindex) rfl rfl rfl rfl

theorem pointerElement (h : Carries types u t) (hi : Carries types w s) :
    Ensures d (Emit.pointerElement u w) fun v _ => Carries types v (.index t s) := by
  unfold Emit.pointerElement
  split
  · obtain ⟨e, T, he, hmeans⟩ := h.asSuffixOperand
    obtain ⟨i, I, hi, hindex⟩ := hi.index
    refine .lift_bind fun e' he' => .lift_bind fun i' hi' => ?_
    cases he.symm.trans he'
    cases hi.symm.trans hi'
    exact place (hmeans.index hindex) rfl rfl rfl rfl
  · exact .bind (Q := fun _ _ => True) (fun _ _ _ => trivial) fun _ _ _ => .throw

/-! #### Addresses -/

/-- The text of an address. -/
theorem address (h : Carries types u t) (hlvalue : u.isRvalue = false) :
    ∃ e T, u.address = .ok e ∧
      Means types (if u.flags.isIndirect then u.precedence else .unary) e T t.address ∧ e.isLiteral = false ∧
      e.isConditional = false := by
  cases h with
  | @direct c T t hcontent hdirect h hplace =>
    obtain ⟨hrank, haddress⟩ := hplace hlvalue
    have hparens : u.precedence.needsUnaryParens = false := by
      simp only [Precedence.needsUnaryParens, Precedence.looser, decide_eq_false_iff_not]
      exact fun hlt => absurd (Nat.lt_of_lt_of_le hlt hrank) (by decide)
    refine ⟨.addressOf c.expr, .operator "&" :: T, ?_, ?_, rfl, rfl⟩
    · simp [Value.address, hlvalue, hdirect, Value.asUnaryOperand, Value.renderParen, Value.render, Value.inner,
        hcontent, Value.effectivePrecedence, hparens, C.Expr.parenIf]
    · rw [haddress, hdirect]
      exact (h.looser (q := .suffix) hrank).addressOf
  | @pointed c T t hcontent hindirect hatom _ h hname =>
    refine ⟨c.expr, T, ?_, ?_, hname.1, hname.2⟩
    · simp [Value.address, hlvalue, hindirect, Value.inner, hcontent]
    · simpa [hindirect, hatom, Tree.address] using h

theorem addressOf (h : Carries types u t) (hlvalue : u.isRvalue = false) :
    Ensures d (Emit.addressOf u) fun v _ => Carries types v t.address := by
  obtain ⟨e, T, he, hmeans, hliteral, hcond⟩ := h.address hlvalue
  unfold Emit.addressOf Emit.materialize
  rw [if_neg (by simp [hlvalue])]
  refine .pure_bind (.bind (Q := fun _ _ => True) (fun _ _ _ => trivial) fun ty d' _ => ?_)
  split
  · next hindirect =>
    rw [if_pos hindirect] at hmeans
    have hcontent : u.inner = .ok e := by simpa [Value.address, hlvalue, hindirect] using he
    cases hc : u.content with
    | none => simp [Value.inner, hc] at hcontent
    | some c =>
      have hexpr : c.expr = e := by simpa [Value.inner, hc] using hcontent
      subst hexpr
      exact .pure (.direct rfl rfl hmeans (fun hr => by cases hr) (fun _ => hliteral) fun h => by simp [hcond] at h)
  · next hdirect =>
    rw [if_neg hdirect] at hmeans
    refine .lift_bind fun e' he' => ?_
    cases he.symm.trans he'
    exact rvalue hmeans (fun _ => hliteral) fun h => by simp [hcond] at h

theorem addressOfLocal (hrvalue : u.isRvalue = true) :
    Ensures d (Emit.addressOf u)
      fun v _ => Carries types v (.unary "&" (.name (C.Name.localVar d.func.counter).spelling)) := by
  have hn : IsIdentifier (C.Name.localVar d.func.counter).spelling :=
    C.Name.isIdentifier_numbered _ (by simp)
  unfold Emit.addressOf Emit.materialize
  rw [if_pos (by simp [hrvalue])]
  refine .bind (Q := fun v _ => v.flags.isIndirect = false ∧
    v.address = .ok (.addressOf (.name (.localVar d.func.counter)))) ?_ ?_
  · refine .lift_bind fun init _ => ?_
    rintro v d' ⟨⟩
    exact ⟨rfl, rfl⟩
  · rintro v d' ⟨hdirect, haddress⟩
    refine .bind (Q := fun _ _ => True) (fun _ _ _ => trivial) fun ty d' _ => ?_
    rw [if_neg (by simp [hdirect])]
    refine .lift_bind fun e he => ?_
    cases haddress.symm.trans he
    exact rvalue ((Means.name hn).looser (by decide)).addressOf (fun _ => rfl) fun hc => by cases hc

/-! #### Computations -/

theorem cast (htypes : types.WellNamed) (hty : (types.headName? ty.head).isSome = true) (h : Carries types u t) :
    Ensures d (Emit.cast u ty) fun v _ => Carries types v (.cast (types.typeName ty) t) := by
  obtain ⟨e, T, he, hmeans⟩ := h.asUnaryOperand
  refine .lift_bind fun e' he' => ?_
  cases he.symm.trans he'
  exact rvalue (hmeans.cast htypes hty) (fun _ => rfl) fun hc => by cases hc

/-- The arguments of a call. -/
theorem arguments {args : List Value} {ts : List Tree} (hlen : args.length = ts.length)
    (h : ∀ p ∈ args.zip ts, Carries types p.1 p.2) {es : List C.Expr}
    (hes : args.mapM Value.asInitializer = .ok es) :
    ∃ xs, List.Forall₂ (fun e (x : List Token × Tree) => Means types .assignment e x.1 x.2) es xs ∧
      xs.map (·.2) = ts := by
  induction args generalizing ts es with
  | nil =>
    cases hes
    cases ts with
    | nil => exact ⟨[], .nil, rfl⟩
    | cons t ts => cases hlen
  | cons v args ih =>
    cases ts with
    | nil => cases hlen
    | cons t ts =>
      rw [List.mapM_cons] at hes
      obtain ⟨e, he, hes⟩ := exists_of_bind_eq_ok hes
      obtain ⟨es', hes', heq⟩ := exists_of_bind_eq_ok hes
      cases heq
      obtain ⟨e', T, he', hmeans⟩ := (h (v, t) (by simp)).asInitializer
      cases he.symm.trans he'
      obtain ⟨xs, hxs, rfl⟩ := ih (Nat.succ.inj hlen) (fun p hp => h p (by simp [hp])) hes'
      exact ⟨(T, t) :: xs, .cons hmeans hxs, rfl⟩

theorem conditional {c a b : Value} {tc ta tb : Tree} {ec ea eb : C.Expr} (hc : Carries types c tc)
    (ha : Carries types a ta) (hb : Carries types b tb)
    (hcond : c.effectivePrecedence.rank < Precedence.assignment.rank) (helse : b.FitsElse) (hec : c.render = .ok ec)
    (hea : a.render = .ok ea) (heb : b.render = .ok eb) :
    Ensures d (Emit.rvalue (.conditional ec ea eb) ty .assignment)
      fun v _ => Carries types v (.conditional tc ta tb) := by
  obtain ⟨e, C, he, hmeansc, -⟩ := hc.render
  cases hec.symm.trans he
  obtain ⟨e, A, he, hmeansa⟩ := ha.index
  cases hea.symm.trans he
  obtain ⟨e, B, he, hmeansb, hcondb⟩ := hb.render
  cases heb.symm.trans he
  -- the last part is tighter than a conditional, or is one
  have hlast : ReadsConditional B tb ∧ Means types .assignment eb B tb := by
    rcases helse with htight | ⟨c', t', e', he'⟩
    · have hor := hmeansb.looser (q := .logicalOr) (Nat.le_of_lt_succ htight)
      exact ⟨hor.reads.conditional_of_logicalOr, hor.looser (by decide)⟩
    · cases heb.symm.trans he'
      obtain ⟨hlevel, hreads⟩ := hcondb rfl
      exact ⟨hreads, hlevel ▸ hmeansb⟩
  have hall := Means.conditional (hmeansc.looser (Nat.le_of_lt_succ hcond)) hmeansa hlast.2 hlast.1
  exact rvalue hall (fun _ => rfl) fun _ =>
    ⟨rfl, .conditional (hmeansc.reads.looser (Nat.le_of_lt_succ hcond)) hmeansa.reads hlast.1⟩

end Carries

/-- Built values carry their trees. -/
theorem Builds.carries {types : TypeTable} (htypes : types.WellNamed) {v : Value} {t : Tree}
    (h : Builds types v t) : Carries types v t := by
  induction h with
  | name hn h => exact .variableValue hn _ _ h
  | reference hn h => exact .referenceValue hn _ _ h
  | unsigned hty h => exact .unsigned hty _ _ h
  | signed hty h => exact .signed hty _ _ h
  | integer hty h => exact .integer hty _ _ h
  | member _ h ih => exact ih.member _ _ h
  | element _ _ h ih ihi => exact ih.element ihi _ _ h
  | pointerElement _ _ h ih ihi => exact ih.pointerElement ihi _ _ h
  | addressOf _ hlvalue h ih => exact ih.addressOf hlvalue _ _ h
  | addressOfLocal _ hrvalue h => exact .addressOfLocal hrvalue _ _ h
  | cast _ hty h ih => exact ih.cast htypes hty _ _ h
  | call _ hlen _ hcallee hes h ih ihargs =>
    obtain ⟨e, T, he, hmeans⟩ := ih.asSuffixOperand
    cases hcallee.symm.trans he
    obtain ⟨xs, hxs, rfl⟩ := Carries.arguments hlen ihargs hes
    exact .rvalue (hmeans.call hxs) (fun _ => rfl) (fun hc => by cases hc) _ _ h
  | binary _ _ hop he h ih ihw =>
    obtain ⟨e, T, he', hmeans, hliteral, hcond⟩ := ih.binary ihw hop
    cases he.symm.trans he'
    exact .rvalue hmeans (fun _ => hliteral) (fun hc => by simp [hcond] at hc) _ _ h
  | conditional _ _ _ hcond helse hec hea heb h ihc iha ihb =>
    exact ihc.conditional iha ihb hcond helse hec hea heb _ _ h

/-- A rendering is an expression whose text is read as a tree, and as no other. -/
def RendersAs (types : TypeTable) (r : Except Fault C.Expr) (t : Tree) : Prop :=
  ∃ e, r = .ok e ∧ ∀ t', ReadsAs (e.print types) t' ↔ t' = t

/-- The texts of a built value are read as its tree: the value by itself, before and after an operator,
as an initialiser, an argument and a function, its address, and the result of an operator. -/
theorem rendered_expressions_read_back {types : TypeTable} (htypes : types.WellNamed) {v : Value} {t : Tree}
    (h : Builds types v t) :
    RendersAs types v.render t ∧ RendersAs types v.asUnaryOperand t ∧ RendersAs types v.asInitializer t ∧
      RendersAs types v.asCallee t ∧ (v.isRvalue = false → RendersAs types v.address t.address) ∧
      (∀ op p w s, (op, p) ∈ C.binaryOperators → Builds types w s →
        RendersAs types (v.binary op w p) (.binary op t s)) ∧
      ∀ op ∈ C.unaryOperators, ∀ ty d, ∃ e r d', Emit.unaryOperation v op ty d = .ok (r, d') ∧
        d'.func.steps = d.func.steps.push (.line (.declare ty d.func.counter (some e))) ∧
        ∀ t', ReadsAs (e.print types) t' ↔ t' = .unary op t := by
  have hv := h.carries htypes
  refine ⟨?_, ?_, ?_, ?_, fun hlvalue => ?_, fun op p w s hop hw => ?_, fun op hop ty d => ?_⟩
  · obtain ⟨e, T, he, hmeans⟩ := hv.index
    exact ⟨e, he, fun _ => hmeans.readsAs_iff⟩
  · obtain ⟨e, T, he, hmeans⟩ := hv.asUnaryOperand
    exact ⟨e, he, fun _ => hmeans.readsAs_iff⟩
  · obtain ⟨e, T, he, hmeans⟩ := hv.asInitializer
    exact ⟨e, he, fun _ => hmeans.readsAs_iff⟩
  · obtain ⟨e, T, he, hmeans⟩ := hv.asSuffixOperand
    exact ⟨e, he, fun _ => hmeans.readsAs_iff⟩
  · obtain ⟨e, T, he, hmeans, -⟩ := hv.address hlvalue
    exact ⟨e, he, fun _ => hmeans.readsAs_iff⟩
  · obtain ⟨e, T, he, hmeans, -⟩ := hv.binary (hw.carries htypes) hop
    exact ⟨e, he, fun _ => hmeans.readsAs_iff⟩
  · obtain ⟨e, T, he, hmeans⟩ := hv.asUnaryOperand
    have hrun : Emit.unaryOperation v op ty d = Emit.declareWith ty (.unary op e) d := by
      unfold Emit.unaryOperation
      rw [he]
      rfl
    exact ⟨.unary op e, _, _, hrun.trans rfl, rfl, fun _ => (hmeans.unary hop).readsAs_iff⟩

/-- The tree of `(*v_0 - (7u - -5)) * v_1`. -/
def nestedDifference : Tree :=
  .binary "*" (.binary "-" (.unary "*" (.name "v_0")) (.binary "-" (.number "7u") (.unary "-" (.number "5"))))
    (.name "v_1")

/-- In `nestedDifference` parentheses are needed on both sides, and a constant has a sign. -/
theorem rendered_expressions_read_back_nestedDifference :
    (∀ head name, C.TypeTable.headName? {} head = some name → (∀ s, head ≠ .scalar s) →
      ∃ w, name.toList = 't' :: '_' :: w ∧ w.all C.isWordChar = true) ∧
    ∃ v, Builds {} v nestedDifference ∧
      v.render.toOption.map (·.print {}) = some "(*v_0 - (7u - -5)) * v_1" ∧
      RendersAs {} v.render nestedDifference := by
  have htypes : C.TypeTable.WellNamed {} := by
    intro head name hname hscalar
    cases head with
    | scalar s => exact absurd rfl (hscalar s)
    | _ => simp [TypeTable.headName?, C.Shapes.name?] at hname
  let d : Draft := { options := {} }
  have hlocal (n : Nat) : IsIdentifier (C.Name.localVar n).spelling := C.Name.isIdentifier_numbered _ (by simp)
  have hpointed : Builds {} _ (.unary "*" (.name "v_0")) :=
    .reference (hlocal 0) (show Emit.referenceValue (.localVar 0) .int false d = .ok (_, _) from rfl)
  have hseven : Builds {} _ (.number "7u") :=
    .unsigned (k := 7) (show CType.int.isBraced = false from rfl) (show Emit.rvalue _ .int _ d = .ok (_, _) from rfl)
  have hfive : Builds {} _ (.unary "-" (.number "5")) :=
    .signed (k := -5) (show CType.int.isBraced = false from rfl) (show Emit.rvalue _ .int _ d = .ok (_, _) from rfl)
  have hone : Builds {} _ (.name "v_1") :=
    .name (hlocal 1) (show Emit.variableValue (.localVar 1) .int d = .ok (_, _) from rfl)
  have hinner : Builds {} _ (.binary "-" _ _) :=
    .binary (p := .additive) hseven hfive (by decide) rfl (show Emit.rvalue _ .int _ d = .ok (_, _) from rfl)
  have hdifference : Builds {} _ (.binary "-" _ _) :=
    .binary (p := .additive) hpointed hinner (by decide) rfl (show Emit.rvalue _ .int _ d = .ok (_, _) from rfl)
  have hall : Builds {} _ nestedDifference :=
    .binary (p := .multiplicative) hdifference hone (by decide) rfl
      (show Emit.rvalue _ .int _ d = .ok (_, _) from rfl)
  exact ⟨htypes, _, hall, by decide +kernel, (rendered_expressions_read_back htypes hall).1⟩

end CBackend
