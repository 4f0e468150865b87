import CBackend.C.CType
import CBackend.C.Precedence
import CBackend.Proofs.Reading.Tokens

/-!
# Reading C expressions

A parser for C's expressions by operator precedence. It knows which words name types, so that it tells
a cast from a parenthesised expression. The ten levels of binary operators from `*` to `||` and the
comma group to the left, assignment and the conditional operator to the right, and a prefix operator or
a cast takes an operand with all its suffixes.

The tree that is read has no parentheses, and `p->m` is read as `(*p).m`.
-/

namespace CBackend.C

/-- The name of a type: its words and the pointer levels after them. -/
structure TypeName where
  words : List String
  levels : List PointerLevel
  deriving DecidableEq, Repr

/-- An expression without its parentheses. -/
inductive Tree
  | name (s : String)
  | number (s : String)
  /-- An operator before its operand. -/
  | unary (op : String) (t : Tree)
  | cast (ty : TypeName) (t : Tree)
  | binary (op : String) (lhs rhs : Tree)
  | conditional (c t e : Tree)
  | member (t : Tree) (field : String)
  | index (t i : Tree)
  | call (callee : Tree) (args : List Tree)

/-! ### The words and operators of C -/

/-- The keywords that types are made of. -/
def typeKeywords : List String :=
  ["void", "signed", "unsigned", "char", "short", "int", "long", "float", "double", "_Bool"]

/-- The other keywords. -/
def otherKeywords : List String :=
  ["auto", "break", "case", "const", "continue", "default", "do", "else", "enum", "extern", "for", "goto",
    "if", "inline", "register", "restrict", "return", "sizeof", "static", "struct", "switch", "typedef",
    "union", "volatile", "while", "_Alignas", "_Alignof", "_Atomic", "_Complex", "_Generic", "_Imaginary",
    "_Noreturn", "_Static_assert", "_Thread_local"]

/-- Whether a word belongs to the name of a type. The types of a compilation unit are called `t_…`. -/
def isTypeWord (s : String) : Bool :=
  typeKeywords.contains s || ['t', '_'].isPrefixOf s.toList

/-- Whether a word names something that is not a type. -/
def isName (s : String) : Bool :=
  !isTypeWord s && !otherKeywords.contains s

/-- The operators that stand before their operand. -/
def unaryOperators : List String :=
  ["-", "+", "!", "~", "*", "&", "++", "--"]

/-- The operators between two operands. -/
def binaryOperators : List (String × Precedence) :=
  [("*", .multiplicative), ("/", .multiplicative), ("%", .multiplicative), ("+", .additive),
    ("-", .additive), ("<<", .shift), (">>", .shift), ("<", .relational), ("<=", .relational),
    (">", .relational), (">=", .relational), ("==", .equality), ("!=", .equality), ("&", .bitAnd),
    ("^", .bitXor), ("|", .bitOr), ("&&", .logicalAnd), ("||", .logicalOr), ("=", .assignment),
    ("+=", .assignment), ("-=", .assignment), ("*=", .assignment), ("/=", .assignment),
    ("%=", .assignment), ("<<=", .assignment), (">>=", .assignment), ("&=", .assignment),
    ("^=", .assignment), ("|=", .assignment), (",", .comma)]

/-- The level of the binary operator that a token is, if it is one. -/
def Token.level? : Token → Option Precedence
  | operator op => binaryOperators.lookup op
  | _ => none

/-- The level that binds next tighter. -/
def Precedence.tighter : Precedence → Precedence
  | atom | suffix => atom
  | unary => suffix
  | multiplicative => unary
  | additive => multiplicative
  | shift => additive
  | relational => shift
  | equality => relational
  | bitAnd => equality
  | bitXor => bitAnd
  | bitOr => bitXor
  | logicalAnd => bitOr
  | logicalOr => logicalAnd
  | assignment => logicalOr
  | comma => assignment

/-! ### Names of types -/

/-- The words of a type at the start of some tokens, and the rest. -/
def typeWords : List Token → List String × List Token
  | .word s :: ts => if isTypeWord s then (s :: (typeWords ts).1, (typeWords ts).2) else ([], .word s :: ts)
  | ts => ([], ts)

/-- The pointer levels at the start of some tokens, and the rest. -/
def pointerLevels : List Token → List PointerLevel × List Token
  | .operator op :: ts =>
    if op = "*" then (.plain :: (pointerLevels ts).1, (pointerLevels ts).2) else ([], .operator op :: ts)
  | .word s :: .operator op :: ts =>
    if s = "const" ∧ op = "*" then (.readOnly :: (pointerLevels ts).1, (pointerLevels ts).2)
    else ([], .word s :: .operator op :: ts)
  | ts => ([], ts)

/-- The name of a type between parentheses, of which the first has been read, and the rest. -/
def castType? (ts : List Token) : Option (TypeName × List Token) :=
  match typeWords ts with
  | ([], _) => none
  | (words, ts) =>
    match pointerLevels ts with
    | (levels, .rightParen :: ts) => some (⟨words, levels⟩, ts)
    | _ => none

/-! ### The parser -/

/-- What is to be read next. -/
inductive Task
  /-- An expression of a level or a tighter one. -/
  | level (p : Precedence)
  /-- Further operators of a level that groups to the left, after an operand. -/
  | operators (p : Precedence) (lhs : Tree)
  /-- A conditional expression or a tighter one. -/
  | conditional
  /-- Further suffixes of an operand. -/
  | suffixes (t : Tree)
  /-- Further arguments of a call, up to the closing parenthesis. -/
  | arguments (callee : Tree) (before : List Tree)

/-- What was read, and the tokens after it. -/
abbrev Reading := Option (Tree × List Token)

section

variable (rec : Task → List Token → Reading)

/-- Reads an operand with its prefix operators and suffixes. -/
def readUnary : List Token → Reading
  | .leftParen :: ts =>
    match castType? ts with
    | some (ty, ts) => (rec (.level .unary) ts).map fun (t, ts) => (.cast ty t, ts)
    | none => (rec (.level .comma) ts).bind fun
      | (t, .rightParen :: ts) => rec (.suffixes t) ts
      | _ => none
  | .operator op :: ts =>
    if op ∈ unaryOperators then (rec (.level .unary) ts).map fun (t, ts) => (.unary op t, ts) else none
  | .word s :: ts => if isName s then rec (.suffixes (.name s)) ts else none
  | .number s :: ts => rec (.suffixes (.number s)) ts
  | _ => none

/-- Reads further suffixes of an operand. -/
def readSuffixes (t : Tree) : List Token → Reading
  | .dot :: .word field :: ts => rec (.suffixes (.member t field)) ts
  | .arrow :: .word field :: ts => rec (.suffixes (.member (.unary "*" t) field)) ts
  | .leftBracket :: ts => (rec (.level .comma) ts).bind fun
    | (i, .rightBracket :: ts) => rec (.suffixes (.index t i)) ts
    | _ => none
  | .leftParen :: .rightParen :: ts => rec (.suffixes (.call t [])) ts
  | .leftParen :: ts => (rec (.arguments t []) ts).bind fun (t, ts) => rec (.suffixes t) ts
  | ts => some (t, ts)

/-- Reads further arguments of a call. -/
def readArguments (callee : Tree) (before : List Tree) (ts : List Token) : Reading :=
  (rec (.level .assignment) ts).bind fun
    | (t, .operator op :: ts) =>
      if op = "," then rec (.arguments callee (before ++ [t])) ts else none
    | (t, .rightParen :: ts) => some (.call callee (before ++ [t]), ts)
    | _ => none

/-- Reads a conditional expression or a tighter one. -/
def readConditional (ts : List Token) : Reading :=
  (rec (.level .logicalOr) ts).bind fun
    | (c, .question :: ts) => (rec (.level .comma) ts).bind fun
      | (t, .colon :: ts) => (rec .conditional ts).map fun (e, ts) => (.conditional c t e, ts)
      | _ => none
    | r => some r

/-- Reads an assignment or a tighter expression. -/
def readAssignment (ts : List Token) : Reading :=
  (rec .conditional ts).bind fun
    | (lhs, .operator op :: ts) =>
      if (Token.operator op).level? = some .assignment then
        (rec (.level .assignment) ts).map fun (rhs, ts) => (.binary op lhs rhs, ts)
      else some (lhs, .operator op :: ts)
    | r => some r

/-- Reads further operators of a level that groups to the left. -/
def readOperators (p : Precedence) (lhs : Tree) : List Token → Reading
  | .operator op :: ts =>
    if (Token.operator op).level? = some p then
      (rec (.level p.tighter) ts).bind fun (rhs, ts) => rec (.operators p (.binary op lhs rhs)) ts
    else some (lhs, .operator op :: ts)
  | ts => some (lhs, ts)

/-- Reads an expression of a level or a tighter one. -/
def readLevel (p : Precedence) (ts : List Token) : Reading :=
  match p with
  | .atom | .suffix | .unary => readUnary rec ts
  | .assignment => readAssignment rec ts
  | p => (rec (.level p.tighter) ts).bind fun (t, ts) => rec (.operators p t) ts

/-- One step of the parser. -/
def parseStep : Task → List Token → Reading
  | .level p, ts => readLevel rec p ts
  | .operators p lhs, ts => readOperators rec p lhs ts
  | .conditional, ts => readConditional rec ts
  | .suffixes t, ts => readSuffixes rec t ts
  | .arguments callee before, ts => readArguments rec callee before ts

end

/-- The parser. The number bounds how deep it goes. -/
def parse : Nat → Task → List Token → Reading
  | 0 => fun _ _ => none
  | n + 1 => parseStep (parse n)

/-- What the parser reads at the start of some tokens, and the tokens after it. -/
def Yields (task : Task) (ts : List Token) (t : Tree) (rest : List Token) : Prop :=
  ∃ n, parse n task ts = some (t, rest)

/-! ### A deeper parser reads no less -/

/-- Whatever the first of two parsers reads, the second reads too. -/
def Extends (rec rec' : Task → List Token → Reading) : Prop :=
  ∀ task ts r, rec task ts = some r → rec' task ts = some r

section

variable {rec rec' : Task → List Token → Reading} {ts : List Token}

theorem Extends.bind (h : Extends rec rec') {task : Task} {f f' : Tree × List Token → Reading}
    (hf : ∀ r r', f r = some r' → f' r = some r') {r : Tree × List Token}
    (hr : (rec task ts).bind f = some r) : (rec' task ts).bind f' = some r := by
  obtain ⟨a, ha, hfa⟩ := Option.bind_eq_some_iff.1 hr
  exact Option.bind_eq_some_iff.2 ⟨a, h _ _ _ ha, hf _ _ hfa⟩

theorem Extends.map (h : Extends rec rec') {task : Task} {f : Tree × List Token → Tree × List Token}
    {r : Tree × List Token} (hr : (rec task ts).map f = some r) : (rec' task ts).map f = some r := by
  obtain ⟨a, ha, hfa⟩ := Option.map_eq_some_iff.1 hr
  exact Option.map_eq_some_iff.2 ⟨a, h _ _ _ ha, hfa⟩

end

theorem parseStep_extends {rec rec' : Task → List Token → Reading} (h : Extends rec rec') :
    Extends (parseStep rec) (parseStep rec') := by
  have hunary {ts : List Token} {r} (hr : readUnary rec ts = some r) : readUnary rec' ts = some r := by
    unfold readUnary at hr ⊢
    split at hr
    · split at hr
      · exact h.map hr
      · refine h.bind (fun r r' hr => ?_) hr
        split at hr
        · exact h _ _ _ hr
        · exact hr
    · split at hr
      · next hop => simpa [hop] using h.map hr
      · cases hr
    · split at hr
      · next hs => simpa [hs] using h _ _ _ hr
      · cases hr
    · exact h _ _ _ hr
    · cases hr
  intro task ts r hr
  cases task with
  | level p =>
    cases p <;> first
      | exact hunary hr
      | exact h.bind (fun _ _ hr => h _ _ _ hr) hr
      | skip
    refine h.bind (fun r r' hr => ?_) hr
    split at hr
    · split at hr
      · next hop => simpa [hop] using h.map hr
      · next hop => simpa [hop] using hr
    · exact hr
  | operators p lhs =>
    simp only [parseStep] at hr ⊢
    unfold readOperators at hr ⊢
    split at hr
    · split at hr
      · next hop => simpa [hop] using h.bind (fun _ _ hr => h _ _ _ hr) hr
      · next hop => simpa [hop] using hr
    · exact hr
  | conditional =>
    refine h.bind (fun r r' hr => ?_) hr
    split at hr
    · refine h.bind (fun r r' hr => ?_) hr
      split at hr
      · exact h.map hr
      · exact hr
    · exact hr
  | suffixes t =>
    simp only [parseStep] at hr ⊢
    unfold readSuffixes at hr ⊢
    split at hr
    · exact h _ _ _ hr
    · exact h _ _ _ hr
    · refine h.bind (fun r r' hr => ?_) hr
      split at hr
      · exact h _ _ _ hr
      · exact hr
    · exact h _ _ _ hr
    · exact h.bind (fun _ _ hr => h _ _ _ hr) hr
    · exact hr
  | arguments callee before =>
    refine h.bind (fun r r' hr => ?_) hr
    split at hr
    · split at hr
      · next hop => simpa [hop] using h _ _ _ hr
      · cases hr
    · exact hr
    · exact hr

theorem parse_extends {n n' : Nat} (h : n ≤ n') : Extends (parse n) (parse n') := by
  induction n generalizing n' with
  | zero => intro task ts r hr; cases hr
  | succ n ih =>
    obtain ⟨k, rfl⟩ : ∃ k, n' = k + 1 := ⟨n' - 1, by omega⟩
    exact parseStep_extends (ih (by omega))

/-! ### The grammar -/

namespace Yields

variable {task : Task} {ts mid rest : List Token} {t t' : Tree}

/-- What is read is read by every parser that goes deep enough. -/
theorem eventually (h : Yields task ts t rest) : ∃ N, ∀ n ≥ N, parse n task ts = some (t, rest) := by
  obtain ⟨N, hN⟩ := h
  exact ⟨N, fun n hn => parse_extends hn _ _ _ hN⟩

/-- Nothing is read in two ways. -/
theorem unique (h : Yields task ts t rest) {rest' : List Token} (h' : Yields task ts t' rest') :
    t = t' ∧ rest = rest' := by
  obtain ⟨n, hn⟩ := h.eventually
  obtain ⟨n', hn'⟩ := h'.eventually
  have hmax := (hn (max n n') (Nat.le_max_left n n')).symm.trans (hn' (max n n') (Nat.le_max_right n n'))
  exact Prod.mk.inj (Option.some.inj hmax)

/-- One step of the parser, given what it reads on the way. -/
theorem step {task₁ : Task} {ts₁ rest₁ : List Token} {t₁ : Tree} (h₁ : Yields task₁ ts₁ t₁ rest₁)
    (hstep : ∀ n, parse n task₁ ts₁ = some (t₁, rest₁) → parseStep (parse n) task ts = some (t, rest)) :
    Yields task ts t rest := by
  obtain ⟨n, hn⟩ := h₁
  exact ⟨n + 1, hstep n hn⟩

/-- One step of the parser, given two things that it reads on the way. -/
theorem step₂ {task₁ task₂ : Task} {ts₁ rest₁ ts₂ rest₂ : List Token} {t₁ t₂ : Tree}
    (h₁ : Yields task₁ ts₁ t₁ rest₁) (h₂ : Yields task₂ ts₂ t₂ rest₂)
    (hstep : ∀ n, parse n task₁ ts₁ = some (t₁, rest₁) → parse n task₂ ts₂ = some (t₂, rest₂) →
      parseStep (parse n) task ts = some (t, rest)) : Yields task ts t rest := by
  obtain ⟨n, hn⟩ := h₁.eventually
  obtain ⟨n', hn'⟩ := h₂.eventually
  exact ⟨max n n' + 1, hstep _ (hn _ (Nat.le_max_left n n')) (hn' _ (Nat.le_max_right n n'))⟩

end Yields

/-- What is read in a text. -/
def ReadsAs (text : String) (t : Tree) : Prop :=
  ∃ ts, Lexes text.toList ts ∧ Yields (.level .comma) ts t []

theorem ReadsAs.unique {text : String} {t t' : Tree} (h : ReadsAs text t) (h' : ReadsAs text t') : t = t' := by
  obtain ⟨ts, hts, ht⟩ := h
  obtain ⟨ts', hts', ht'⟩ := h'
  cases hts.unique hts'
  exact (ht.unique ht').1

end CBackend.C
