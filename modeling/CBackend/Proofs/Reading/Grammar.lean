import CBackend.Proofs.Reading.Parser
import Mathlib.Data.List.Forall2

/-!
# The grammar of C's expressions

Which tokens read as an expression of a level of C's grammar, in a form that composes: tokens read as a
tree of a level if the parser for that level takes them for that tree and goes on with what follows.
For each construct of the grammar there is one lemma.
-/

namespace CBackend.C

variable {p : Precedence} {T rest : List Token} {op : String} {t : Tree} {Ts : List (List Token)}

/-- Whether a token goes on with a suffix. -/
def Token.isSuffix : Token → Bool
  | dot | arrow | leftBracket | leftParen => true
  | _ => false

/-- What follows does not go on with an expression of a level. -/
def Stops (p : Precedence) (rest : List Token) : Prop :=
  ∀ tok ∈ rest.head?, tok.isSuffix = false ∧ (∀ q, tok.level? = some q → p.rank < q.rank) ∧
    (Precedence.assignment.rank ≤ p.rank → tok ≠ .question)

theorem Stops.tighter {q : Precedence} (h : Stops q rest) (hp : p.rank ≤ q.rank) :
    Stops p rest := by
  intro tok htok
  obtain ⟨hsuffix, hlevel, hquestion⟩ := h tok htok
  exact ⟨hsuffix, fun r hr => hp.trans_lt (hlevel r hr), fun ha => hquestion (ha.trans hp)⟩

theorem Stops.nil : Stops p [] := by
  intro tok htok
  cases htok

/-- The tokens that read as a tree at a level. -/
def Reads (p : Precedence) (T : List Token) (t : Tree) : Prop :=
  match p with
  | .atom | .suffix => ∀ rest t' rest', Yields (.suffixes t) rest t' rest' →
      Yields (.level .unary) (T ++ rest) t' rest'
  | .unary => ∀ rest, Stops .unary rest → Yields (.level .unary) (T ++ rest) t rest
  | .assignment => ∀ rest, Stops .assignment rest → Yields (.level .assignment) (T ++ rest) t rest
  | p => ∀ rest t' rest', Stops p.tighter rest → Yields (.operators p t) rest t' rest' →
      Yields (.level p) (T ++ rest) t' rest'

/-- The tokens that read as a conditional expression or a tighter one. -/
def ReadsConditional (T : List Token) (t : Tree) : Prop :=
  ∀ rest, Stops .logicalOr rest → rest.head? ≠ some .question → Yields .conditional (T ++ rest) t rest

/-- The levels of binary operators that group to the left. -/
def Precedence.groupsLeft : Precedence → Bool
  | atom | suffix | unary | assignment => false
  | _ => true

namespace Yields

variable {p : Precedence} {ts mid rest : List Token} {t t' : Tree}

theorem suffixes_end (h : ∀ tok ∈ rest.head?, tok.isSuffix = false) : Yields (.suffixes t) rest t rest := by
  refine ⟨1, ?_⟩
  simp only [parse, parseStep]
  unfold readSuffixes
  split
  all_goals first
    | rfl
    | exact absurd (h _ rfl) (by decide)

theorem operators_end (h : ∀ tok ∈ rest.head?, tok.level? ≠ some p) : Yields (.operators p t) rest t rest := by
  refine ⟨1, ?_⟩
  simp only [parse, parseStep]
  unfold readOperators
  split
  · rw [if_neg (h _ rfl)]
  · rfl

theorem operators_next {rhs : Tree} (hop : (Token.operator op).level? = some p)
    (hrhs : Yields (.level p.tighter) ts rhs mid) (h : Yields (.operators p (.binary op t rhs)) mid t' rest) :
    Yields (.operators p t) (.operator op :: ts) t' rest := by
  refine step₂ hrhs h fun n hn hn' => ?_
  simp [parseStep, readOperators, hop, hn, hn']

theorem level_left (hp : p.groupsLeft = true) (h : Yields (.level p.tighter) ts t mid)
    (h' : Yields (.operators p t) mid t' rest) : Yields (.level p) ts t' rest := by
  refine step₂ h h' fun n hn hn' => ?_
  cases p <;> first | exact absurd hp (by decide) | simp [parseStep, readLevel, hn, hn']

end Yields

/-! ### Levels -/

/-- An operator that groups to the left, seen from its level. -/
theorem reads_groupsLeft (hp : p.groupsLeft = true) :
    Reads p T t ↔ ∀ rest t' rest', Stops p.tighter rest → Yields (.operators p t) rest t' rest' →
      Yields (.level p) (T ++ rest) t' rest' := by
  cases p <;> first | exact absurd hp (by decide) | rfl

namespace Reads

variable {p q : Precedence} {T : List Token} {t : Tree}

/-- What the parser reads up to the end of an expression. -/
theorem yields (h : Reads p T t) (hp : 2 ≤ p.rank) (rest : List Token) (hrest : Stops p rest) :
    Yields (.level p) (T ++ rest) t rest := by
  by_cases hleft : p.groupsLeft = true
  · refine (reads_groupsLeft hleft).1 h rest t rest (hrest.tighter (by cases p <;> decide)) (.operators_end ?_)
    intro tok htok hlevel
    exact absurd ((hrest tok htok).2.1 p hlevel) (Nat.lt_irrefl _)
  · cases p <;> first | exact h rest hrest | exact absurd rfl hleft | exact absurd hp (by decide)

theorem conditional_of_logicalOr (h : Reads .logicalOr T t) : ReadsConditional T t := by
  intro rest hrest hquestion
  refine .step (h.yields (by decide) rest hrest) fun n hn => ?_
  simp only [parseStep, readConditional, hn, Option.bind_some]
  split
  · next heq =>
    cases heq
    exact absurd rfl hquestion
  · rfl

end Reads

theorem ReadsConditional.assignment (h : ReadsConditional T t) :
    Reads .assignment T t := by
  intro rest hrest
  have hquestion : rest.head? ≠ some .question := fun heq => (hrest _ heq).2.2 (by decide) rfl
  refine .step (h rest (hrest.tighter (by decide)) hquestion) fun n hn => ?_
  simp only [parseStep, readLevel, readAssignment, hn, Option.bind_some]
  split
  · next heq =>
    cases heq
    rw [if_neg]
    intro hlevel
    exact absurd ((hrest _ rfl).2.1 _ hlevel) (Nat.lt_irrefl _)
  · rfl

namespace Reads

variable {p q : Precedence} {T : List Token} {t : Tree}

theorem unary_of_suffix (h : Reads .suffix T t) : Reads .unary T t :=
  fun rest hrest => h rest t rest (.suffixes_end fun tok htok => (hrest tok htok).1)

/-- An expression of the next tighter level. -/
theorem left_of_tighter (hp : p.groupsLeft = true) (h : Reads p.tighter T t) : Reads p T t :=
  (reads_groupsLeft hp).2 fun _ _ _ hrest hop =>
    .level_left hp (h.yields (by cases p <;> first | decide | cases hp) _ hrest) hop

theorem next (h : Reads p.tighter T t) (hp : 1 ≤ p.rank) : Reads p T t := by
  by_cases hleft : p.groupsLeft = true
  · exact left_of_tighter hleft h
  · cases p with
    | suffix => exact h
    | unary => exact unary_of_suffix h
    | assignment => exact (conditional_of_logicalOr h).assignment
    | atom => exact absurd hp (by decide)
    | _ => exact absurd rfl hleft

/-- An expression of a level is one of every looser level. -/
theorem looser (h : Reads p T t) (hpq : p.rank ≤ q.rank) : Reads q T t := by
  obtain ⟨k, hk⟩ : ∃ k, q.rank = p.rank + k := ⟨q.rank - p.rank, by omega⟩
  induction k generalizing q with
  | zero =>
    have hqp : q = p := by cases p <;> cases q <;> first | rfl | exact absurd hk (by decide)
    exact hqp ▸ h
  | succ k ih =>
    have hrank : q.tighter.rank = q.rank - 1 := by cases q <;> rfl
    exact next (ih (by omega) (by omega)) (by omega)

end Reads

/-! ### The constructs -/

/-- Tokens that cannot be taken for the name of a type, or for the end of a list of arguments. -/
def StartsOperand (T : List Token) : Prop :=
  ∃ tok rest, T = tok :: rest ∧ tok ≠ .rightParen ∧ ∀ s, tok = .word s → isTypeWord s = false

theorem StartsOperand.append (h : StartsOperand T) (T' : List Token) :
    StartsOperand (T ++ T') := by
  obtain ⟨tok, rest, rfl, h⟩ := h
  exact ⟨tok, rest ++ T', rfl, h⟩

theorem StartsOperand.castType?_eq_none (h : StartsOperand T) : castType? T = none := by
  obtain ⟨tok, rest, rfl, -, hword⟩ := h
  have hwords : (typeWords (tok :: rest)).1 = [] := by
    unfold typeWords
    split
    · next heq =>
      cases heq
      simp [hword _ rfl]
    · rfl
  unfold castType?
  split
  · rfl
  · next hne heq =>
    rw [heq] at hwords
    exact absurd hwords hne

/-- The tokens of a list of arguments. -/
def commaSeparated : List (List Token) → List Token
  | [] => []
  | [T] => T
  | T :: T' :: Ts => T ++ .operator "," :: commaSeparated (T' :: Ts)

theorem level?_comma : (Token.operator ",").level? = some .comma := by
  decide

theorem commaSeparated_starts (hne : Ts ≠ []) (h : ∀ T ∈ Ts, StartsOperand T) :
    StartsOperand (commaSeparated Ts) := by
  match Ts with
  | [] => exact absurd rfl hne
  | [T] => exact h T (by simp)
  | T :: T' :: Ts => exact (h T (by simp)).append _

/-- A token that ends every expression stops one of each level. -/
theorem Stops.cons {tok : Token} (hsuffix : tok.isSuffix = false) (hlevel : tok.level? = none)
    (hquestion : tok ≠ .question) : Stops p (tok :: rest) := by
  intro tok' htok
  cases Option.some.inj htok
  exact ⟨hsuffix, by simp [hlevel], fun _ => hquestion⟩

/-- An operator stops the expressions of the levels that bind tighter. -/
theorem Stops.operator {q : Precedence} (hop : (Token.operator op).level? = some q) (hpq : p.rank < q.rank) :
    Stops p (.operator op :: rest) := by
  intro tok htok
  cases Option.some.inj htok
  refine ⟨rfl, fun r hr => ?_, fun _ => by simp⟩
  cases Option.some.inj (hop.symm.trans hr)
  exact hpq

namespace Reads

variable {p : Precedence} {T : List Token} {t : Tree}

theorem name {s : String} (hs : isName s = true) : Reads .atom [.word s] (.name s) := by
  intro rest t' rest' h
  exact .step h fun n hn => by simp [parseStep, readLevel, readUnary, hs, hn]

theorem number {s : String} : Reads .atom [.number s] (.number s) := by
  intro rest t' rest' h
  exact .step h fun n hn => by simp [parseStep, readLevel, readUnary, hn]

theorem paren (h : Reads .comma T t) (hT : StartsOperand T) :
    Reads .atom (.leftParen :: T ++ [.rightParen]) t := by
  intro rest t' rest' hrest
  have hinner := h.yields (by decide) (.rightParen :: rest) (.cons rfl rfl (by simp))
  refine .step₂ hinner hrest fun n hn hn' => ?_
  simp [parseStep, readLevel, readUnary, (hT.append _).castType?_eq_none, hn, hn']

theorem member {field : String} (h : Reads .suffix T t) :
    Reads .suffix (T ++ [.dot, .word field]) (.member t field) := by
  intro rest t' rest' hrest
  have hdot : Yields (.suffixes t) (.dot :: .word field :: rest) t' rest' :=
    .step hrest fun n hn => by simp [parseStep, readSuffixes, hn]
  simpa using h _ _ _ hdot

theorem arrow {field : String} (h : Reads .suffix T t) :
    Reads .suffix (T ++ [.arrow, .word field]) (.member (.unary "*" t) field) := by
  intro rest t' rest' hrest
  have harrow : Yields (.suffixes t) (.arrow :: .word field :: rest) t' rest' :=
    .step hrest fun n hn => by simp [parseStep, readSuffixes, hn]
  simpa using h _ _ _ harrow

theorem index {I : List Token} {i : Tree} (h : Reads .suffix T t) (hi : Reads .comma I i) :
    Reads .suffix (T ++ .leftBracket :: I ++ [.rightBracket]) (.index t i) := by
  intro rest t' rest' hrest
  have hinner := hi.yields (by decide) (.rightBracket :: rest) (.cons rfl rfl (by simp))
  have hbracket : Yields (.suffixes t) (.leftBracket :: (I ++ .rightBracket :: rest)) t' rest' :=
    .step₂ hinner hrest fun n hn hn' => by simp [parseStep, readSuffixes, hn, hn']
  simpa using h _ _ _ hbracket

/-- What the parser reads in a list of arguments that is not empty. -/
theorem yields_arguments {ts : List Tree} (h : List.Forall₂ (Reads .assignment) Ts ts) (hne : Ts ≠ []) (callee : Tree)
    (before : List Tree) (rest : List Token) :
    Yields (.arguments callee before) (commaSeparated Ts ++ .rightParen :: rest)
      (.call callee (before ++ ts)) rest := by
  induction h generalizing before with
  | nil => exact absurd rfl hne
  | @cons T t Ts ts hT hTs ih =>
    cases hTs with
    | nil =>
      have hlast := hT.yields (by decide) (.rightParen :: rest) (.cons rfl rfl (by simp))
      exact .step hlast fun n hn => by simp [parseStep, readArguments, commaSeparated, hn]
    | @cons T' t' Ts ts hT' hTs =>
      have hnext := ih (by simp) (before ++ [t])
      have harg := hT.yields (by decide) (.operator "," :: (commaSeparated (T' :: Ts) ++ .rightParen :: rest))
        (.operator level?_comma (by decide))
      refine .step₂ harg hnext fun n hn hn' => ?_
      simp [parseStep, readArguments, commaSeparated, hn, hn']

theorem call {ts : List Tree} (h : Reads .suffix T t) (hargs : List.Forall₂ (Reads .assignment) Ts ts)
    (hTs : ∀ T ∈ Ts, StartsOperand T) :
    Reads .suffix (T ++ .leftParen :: commaSeparated Ts ++ [.rightParen]) (.call t ts) := by
  intro rest t' rest' hrest
  by_cases hne : Ts = []
  · subst hne
    cases hargs
    have hcall : Yields (.suffixes t) (.leftParen :: .rightParen :: rest) t' rest' :=
      .step hrest fun n hn => by simp [parseStep, readSuffixes, hn]
    simpa [commaSeparated] using h _ _ _ hcall
  · obtain ⟨tok, R, htok, hparen, -⟩ := commaSeparated_starts hne hTs
    have hinner := yields_arguments hargs hne t [] rest
    have hcall : Yields (.suffixes t) (.leftParen :: (commaSeparated Ts ++ .rightParen :: rest)) t' rest' := by
      refine .step₂ hinner hrest fun n hn hn' => ?_
      rw [htok] at hn ⊢
      simp only [List.nil_append, List.cons_append] at hn hn' ⊢
      simp only [parseStep]
      unfold readSuffixes
      split <;> simp_all
    simpa using h _ _ _ hcall

theorem unary (hop : op ∈ unaryOperators) (h : Reads .unary T t) :
    Reads .unary (.operator op :: T) (.unary op t) := by
  intro rest hrest
  exact .step (h rest hrest) fun n hn => by simp [parseStep, readLevel, readUnary, hop, hn]

theorem cast {ty : TypeName} {N : List Token} (hN : ∀ rest, castType? (N ++ .rightParen :: rest) = some (ty, rest))
    (h : Reads .unary T t) : Reads .unary (.leftParen :: N ++ .rightParen :: T) (.cast ty t) := by
  intro rest hrest
  refine .step (h rest hrest) fun n hn => ?_
  simp [parseStep, readLevel, readUnary, hN, hn]

theorem binary {L R : List Token} {l r : Tree} (hp : p.groupsLeft = true) (hop : (Token.operator op).level? = some p)
    (hl : Reads p L l) (hr : Reads p.tighter R r) :
    Reads p (L ++ .operator op :: R) (.binary op l r) := by
  have hrank : 2 ≤ p.tighter.rank ∧ p.tighter.rank < p.rank := by
    cases p <;> first | exact absurd hp (by decide) | decide
  rw [reads_groupsLeft hp] at hl ⊢
  intro rest t' rest' hrest h
  have hnext := Yields.operators_next (t := l) hop (hr.yields hrank.1 rest hrest) h
  simpa using hl _ _ _ (.operator hop hrank.2) hnext

theorem assign {L R : List Token} {l r : Tree} (hop : (Token.operator op).level? = some .assignment)
    (hl : ReadsConditional L l) (hr : Reads .assignment R r) :
    Reads .assignment (L ++ .operator op :: R) (.binary op l r) := by
  intro rest hrest
  have hlhs := hl (.operator op :: (R ++ rest)) (.operator hop (by decide)) (by simp)
  refine .step₂ hlhs (hr rest hrest) fun n hn hn' => ?_
  simp [parseStep, readLevel, readAssignment, hop, hn, hn']

end Reads

theorem ReadsConditional.conditional {C E : List Token} {c e : Tree} (hc : Reads .logicalOr C c) (ht : Reads .comma T t)
    (he : ReadsConditional E e) :
    ReadsConditional (C ++ .question :: T ++ .colon :: E) (.conditional c t e) := by
  intro rest hrest hquestion
  have hcond := hc.yields (by decide) (.question :: (T ++ .colon :: (E ++ rest))) <| by
    intro tok htok
    cases Option.some.inj htok
    exact ⟨rfl, by simp [Token.level?], fun h => absurd h (by decide)⟩
  have hthen := ht.yields (by decide) (.colon :: (E ++ rest)) (.cons rfl rfl (by simp))
  obtain ⟨n, hn⟩ := hcond.eventually
  obtain ⟨n', hn'⟩ := (he rest hrest hquestion).eventually
  obtain ⟨n'', hn''⟩ := hthen.eventually
  refine ⟨max n (max n' n'') + 1, ?_⟩
  simp [parse, parseStep, readConditional, hn (max n (max n' n'')) (by omega),
    hn' (max n (max n' n'')) (by omega), hn'' (max n (max n' n'')) (by omega)]

end CBackend.C
