import CBackend.C.Expr
import CBackend.Proofs.Reading.Grammar

/-!
# The text of an expression

What a C compiler makes of the text of an expression: the tokens of the text, and the level and the tree
at which they are read. The statement about an expression holds whatever text comes after it, as long as
that text does not go on with its last token, and so the statements about the parts of an expression give
the one about the whole.
-/

namespace CBackend.C

variable {op s : String} {c : Char} {p rest w : List Char} {levels : List PointerLevel} {T' ts : List Token}
  {types : TypeTable} {ty : CType} {e' : Expr} {t' : Tree} {p' : Precedence} {field : Field} {es : List Expr}
  {xs : List (List Token × Tree)}

/-! ### Identifiers -/

/-- A name that is not a word of the language. -/
def IsIdentifier (s : String) : Prop :=
  isWord s = true ∧ isName s = true

theorem all_isWordChar_toDigits (n : Nat) : (Nat.toDigits 10 n).all isWordChar = true := by
  rw [List.all_eq_true]
  intro c hc
  simp [isWordChar, Nat.isDigit_of_mem_toDigits (by decide) (by decide) hc]

theorem isWordChar_underscore : isWordChar '_' = true := by
  decide

theorem isName_of_underscore (hs : s.toList = c :: '_' :: w) (hc : c ≠ 't') : isName s = true := by
  have hkeywords : ∀ k ∈ typeKeywords ++ otherKeywords, k.toList[1]? ≠ some '_' := by decide
  have hmem (l : List String) (hl : ∀ k ∈ l, k ∈ typeKeywords ++ otherKeywords) : s ∉ l := by
    intro hmem
    exact hkeywords s (hl s hmem) (by simp [hs])
  have htype := hmem typeKeywords fun k hk => List.mem_append_left _ hk
  have hother := hmem otherKeywords fun k hk => List.mem_append_right _ hk
  simp [isName, isTypeWord, hs, List.isPrefixOf, hc.symm, htype, hother]

/-- The names that the generator makes are identifiers. -/
theorem isIdentifier_numbered {n : Nat} (hs : s.toList = c :: '_' :: Nat.toDigits 10 n) (hc : isWordStart c = true)
    (ht : c ≠ 't') :
    IsIdentifier s :=
  ⟨by simp [isWord, hs, hc, all_isWordChar_toDigits, isWordChar_underscore], isName_of_underscore hs ht⟩

theorem Name.isIdentifier_numbered : (n : Name) → (∀ s, n ≠ .symbol s) → IsIdentifier n.spelling
  | .localVar n, _ => C.isIdentifier_numbered (c := 'v') (n := n) (by simp [spelling, toString]) rfl (by decide)
  | .global n, _ => C.isIdentifier_numbered (c := 'g') (n := n) (by simp [spelling, toString]) rfl (by decide)
  | .string n, _ => C.isIdentifier_numbered (c := 's') (n := n) (by simp [spelling, toString]) rfl (by decide)
  | .function n, _ => C.isIdentifier_numbered (c := 'f') (n := n) (by simp [spelling, toString]) rfl (by decide)
  | .symbol s, h => absurd rfl (h s)

theorem isWord_field (field : Field) : isWord field.spelling = true := by
  cases field with
  | member i =>
    have hs : (Field.member i).spelling.toList = 'm' :: '_' :: Nat.toDigits 10 i := by
      simp [Field.spelling, toString]
    simp [isWord, hs, all_isWordChar_toDigits, isWordChar, isWordStart]
  | elements => decide

/-! ### Punctuation -/

theorem glues_of_notMem (hc : c ∉ punctuators.flatten) (hdot : p = ['.'] → c.isDigit = false) : glues p c = false := by
  have hany : punctuators.any (fun q => (p ++ [c]).isPrefixOf q) = false := by
    rw [List.any_eq_false]
    intro q hq hpre
    rw [isPrefixOf_iff] at hpre
    exact hc (List.mem_flatten.2 ⟨q, hq, hpre.subset (by simp)⟩)
  have hslash : c ≠ '/' ∧ c ≠ '*' := by
    constructor <;> (rintro rfl; exact hc (by decide))
  rw [glues, hany]
  simpa [hslash] using hdot

/-- No punctuator has a character of a word. -/
theorem notMem_punctuators_of_isWordChar (hc : isWordChar c = true) : c ∉ punctuators.flatten := by
  have hall : punctuators.flatten.all (!isWordChar ·) = true := by decide
  intro hmem
  simpa [hc] using List.all_eq_true.1 hall c hmem

theorem glues_blank : glues p ' ' = false :=
  glues_of_notMem (by decide) fun _ => by decide

/-- The characters that an operand can start with besides its prefix operators. -/
def opensSuffix (c : Char) : Bool :=
  isWordChar c || c == '('

/-- The characters that an expression can start with. -/
def opensOperand (c : Char) : Bool :=
  opensSuffix c || ['*', '&', '-', '+', '!', '~'].contains c

theorem glues_of_opensSuffix (hp : p ∈ punctuators) (hdot : p ≠ ['.']) (hc : opensSuffix c = true) :
    glues p c = false := by
  simp only [opensSuffix, Bool.or_eq_true, beq_iff_eq] at hc
  rcases hc with hc | rfl
  · exact glues_of_notMem (notMem_punctuators_of_isWordChar hc) fun h => absurd h hdot
  · have hall : ∀ p ∈ punctuators, glues p '(' = false := by decide
    exact hall p hp

/-- An operator before an operand that does not start with the same character. -/
theorem glues_of_opensOperand (hop : op ∈ unaryOperators) (hc : opensOperand c = true) (hne : op.toList ≠ [c]) :
    glues op.toList c = false := by
  have hall : ∀ op ∈ unaryOperators, op.toList ∈ punctuators ∧ op.toList ≠ ['.'] ∧
      ['*', '&', '-', '+', '!', '~'].all (fun c => op.toList == [c] || !glues op.toList c) = true := by decide
  obtain ⟨hp, hdot, hglue⟩ := hall op hop
  simp only [opensOperand, Bool.or_eq_true, List.contains_iff_mem] at hc
  rcases hc with hc | hc
  · exact glues_of_opensSuffix hp hdot hc
  · simpa [hne] using List.all_eq_true.1 hglue c hc

/-! ### Types -/

/-- A table whose types are called `t_…`. -/
def TypeTable.WellNamed (types : TypeTable) : Prop :=
  ∀ head name, types.headName? head = some name → (∀ s, head ≠ .scalar s) →
    ∃ w, name.toList = 't' :: '_' :: w ∧ w.all isWordChar = true

/-- The words of a scalar type. -/
def Scalar.words : Scalar → List String
  | void => ["void"]
  | signedChar => ["signed", "char"]
  | unsignedChar => ["unsigned", "char"]
  | short => ["short"]
  | unsignedShort => ["unsigned", "short"]
  | int => ["int"]
  | unsignedInt => ["unsigned", "int"]
  | long => ["long"]
  | unsignedLong => ["unsigned", "long"]
  | longLong => ["long", "long"]
  | unsignedLongLong => ["unsigned", "long", "long"]
  | float => ["float"]
  | double => ["double"]
  | bool => ["_Bool"]

/-- The words of the head of a type, of which all but the scalars have one. -/
def TypeTable.headWords (types : TypeTable) : Head → List String
  | .scalar s => s.words
  | head => (types.headName? head).toList

/-- The name of a type as it is read. -/
def TypeTable.typeName (types : TypeTable) (ty : CType) : TypeName :=
  ⟨types.headWords ty.head, ty.chain.levels⟩

/-- The tokens of a pointer level. -/
def levelTokens : PointerLevel → List Token
  | .plain => [.operator "*"]
  | .readOnly => [.word "const", .operator "*"]

/-- The tokens of the name of a type. -/
def TypeName.tokens (n : TypeName) : List Token :=
  n.words.map .word ++ n.levels.flatMap levelTokens

theorem typeWords_append {words : List String} (hwords : ∀ s ∈ words, isTypeWord s = true) {rest : List Token}
    (hrest : ∀ s, rest.head? = some (.word s) → isTypeWord s = false) :
    typeWords (words.map .word ++ rest) = (words, rest) := by
  induction words with
  | nil =>
    cases rest with
    | nil => rfl
    | cons tok rest =>
      cases tok with
      | word s => simp [typeWords, hrest s rfl]
      | _ => rfl
  | cons s words ih =>
    rw [List.forall_mem_cons] at hwords
    simp [typeWords, hwords.1, ih hwords.2]

theorem pointerLevels_append {rest : List Token} :
    pointerLevels (levels.flatMap levelTokens ++ .rightParen :: rest) = (levels, .rightParen :: rest) := by
  induction levels with
  | nil => rfl
  | cons l levels ih => cases l <;> simp [levelTokens, pointerLevels, ih]

/-- The name of a type is read between the parentheses of a cast. -/
theorem TypeName.castType? {n : TypeName} (hne : n.words ≠ []) (hwords : ∀ s ∈ n.words, isTypeWord s = true)
    (rest : List Token) : C.castType? (n.tokens ++ .rightParen :: rest) = some (n, rest) := by
  have hhead : ∀ s, (n.levels.flatMap levelTokens ++ Token.rightParen :: rest).head? = some (.word s) →
      isTypeWord s = false := by
    intro s hs
    cases hlevels : n.levels with
    | nil => simp [hlevels] at hs
    | cons l levels =>
      cases l with
      | plain => simp [hlevels, levelTokens] at hs
      | readOnly =>
        have hconst : s = "const" := by simpa [hlevels, levelTokens] using hs.symm
        subst hconst
        decide
  have hsplit := typeWords_append hwords hhead
  unfold C.castType?
  rw [tokens, List.append_assoc, hsplit]
  simp [pointerLevels_append]

/-- The text of pointer levels, with a closing parenthesis after them. -/
theorem head?_levels :
    ∀ c ∈ ((levels.flatMap fun l => (TypeTable.levelSuffix l).toList) ++ ')' :: rest).head?,
      c ∈ ['*', ' ', ')'] := by
  cases levels with
  | nil => simp
  | cons l levels => cases l <;> simp [TypeTable.levelSuffix]

theorem lexes_levels (hts : Lexes (')' :: rest) ts) :
    Lexes ((levels.flatMap fun l => (TypeTable.levelSuffix l).toList) ++ ')' :: rest)
      (levels.flatMap levelTokens ++ ts) := by
  induction levels with
  | nil => exact hts
  | cons l levels ih =>
    have hall : ['*', ' ', ')'].all (!glues ['*'] ·) = true := by decide
    have hstar := Lexes.punctuator (p := ['*']) (by decide)
      (fun c hc => by simpa using List.all_eq_true.1 hall c (head?_levels c hc)) ih
    cases l with
    | plain => simpa [TypeTable.levelSuffix, levelTokens, Token.ofPunctuator] using hstar
    | readOnly =>
      have hconst := Lexes.word (s := "const") (by decide) (endsWord_cons (by decide)) hstar.blank
      simpa [TypeTable.levelSuffix, levelTokens, Token.ofPunctuator] using hconst.blank

theorem lexes_words {words : List String} (hwords : ∀ s ∈ words, isWord s = true) (hrest : EndsWord rest)
    (hts : Lexes rest ts) :
    Lexes ((" ".intercalate words).toList ++ rest) (words.map .word ++ ts) := by
  rw [String.toList_intercalate]
  induction words with
  | nil => simpa using hts
  | cons s words ih =>
    rw [List.forall_mem_cons] at hwords
    cases words with
    | nil => simpa using Lexes.word hwords.1 hrest hts
    | cons s' words =>
      have hall := Lexes.word hwords.1 (endsWord_cons (by decide)) (ih hwords.2).blank
      simpa [List.intercalate] using hall

/-- The words of the head of a type, as its name spells them. -/
theorem headWords_spec (htypes : types.WellNamed) {head : Head} {name : String}
    (hname : types.headName? head = some name) :
    types.headWords head ≠ [] ∧ (∀ s ∈ types.headWords head, isWord s = true ∧ isTypeWord s = true) ∧
      name = " ".intercalate (types.headWords head) := by
  by_cases hscalar : ∃ s, head = .scalar s
  · obtain ⟨s, rfl⟩ := hscalar
    cases Option.some.inj hname
    have hall : ∀ s ∈ Scalar.all, s.words ≠ [] ∧ (∀ w ∈ s.words, isWord w = true ∧ isTypeWord w = true) ∧
        s.spelling = " ".intercalate s.words := by decide
    exact hall s (by cases s <;> decide)
  · obtain ⟨w, hw, hall⟩ := htypes head name hname (by simpa using hscalar)
    have hwords : types.headWords head = [name] := by
      cases head with
      | scalar s => exact absurd ⟨s, rfl⟩ hscalar
      | _ => simp only [TypeTable.headWords, hname, Option.toList_some]
    have hword : isWord name = true := by simp [isWord, hw, hall, isWordChar, isWordStart]
    have htype : isTypeWord name = true := by simp [isTypeWord, hw, List.isPrefixOf]
    rw [hwords]
    exact ⟨by simp, by simp [hword, htype], by simp⟩

/-- The text of a type between the parentheses of a cast. -/
theorem lexes_type (htypes : types.WellNamed) (hname : (types.headName? ty.head).isSome = true)
    (hts : Lexes (')' :: rest) ts) :
    Lexes ((types.render ty).toList ++ ')' :: rest) ((types.typeName ty).tokens ++ ts) := by
  obtain ⟨name, hname⟩ := Option.isSome_iff_exists.1 hname
  obtain ⟨-, hwords, htext⟩ := headWords_spec htypes hname
  have hends : EndsWord ((ty.chain.levels.flatMap fun l => (TypeTable.levelSuffix l).toList) ++ ')' :: rest) := by
    have hall : ['*', ' ', ')'].all (!isWordChar ·) = true := by decide
    exact fun c hc => by simpa using List.all_eq_true.1 hall c (head?_levels c hc)
  have hlexes := lexes_words (fun s hs => (hwords s hs).1) hends (lexes_levels hts)
  rw [← htext] at hlexes
  simpa [TypeTable.render, TypeTable.render?, hname, TypeTable.typeName, TypeName.tokens, String.toList_join,
    List.flatMap_map] using hlexes

/-! ### Expressions -/

/-- Whether an expression is a number. -/
def Expr.isLiteral : Expr → Bool
  | literal _ => true
  | _ => false

/-- The text of an expression is read at a level as a tree, through its tokens. -/
structure Means (types : TypeTable) (p : Precedence) (e : Expr) (T : List Token) (t : Tree) : Prop where
  reads : Reads p T t
  starts : StartsOperand T
  opens : ∃ c cs, (e.print types).toList = c :: cs ∧ opensOperand c = true ∧
    (p.rank ≤ 1 → opensSuffix c = true)
  lexes : ∀ rest ts, EndsNumber rest → Lexes rest ts → Lexes ((e.print types).toList ++ rest) (T ++ ts)
  /-- A member can be taken of anything but a number. -/
  lexesWord : p.rank ≤ 1 → e.isLiteral = false → ∀ rest ts, EndsWord rest → Lexes rest ts →
    Lexes ((e.print types).toList ++ rest) (T ++ ts)

/-- The single punctuators that are followed by anything. -/
theorem Lexes.bracket {tok : Token} (hc : c ∈ ['(', ')', '[', ']']) (htok : .ofPunctuator [c] = tok)
    (h : Lexes rest ts) :
    Lexes (c :: rest) (tok :: ts) := by
  have hall : ['(', ')', '[', ']'].all (fun c => decide ([c] ∈ punctuators ∧ c ≠ '.' ∧ c ≠ '/' ∧
      ∀ q ∈ punctuators, [c].isPrefixOf q = true → q = [c])) = true := by decide
  obtain ⟨hp, hdot, hslash, hlongest⟩ := of_decide_eq_true (List.all_eq_true.1 hall c hc)
  refine htok ▸ .punctuator (p := [c]) hp (fun c' hc' => ?_) h
  have hany : punctuators.any (fun q => ([c] ++ [c']).isPrefixOf q) = false := by
    rw [List.any_eq_false]
    intro q hq hpre
    have hq' := hlongest q hq (by
      rw [isPrefixOf_iff] at hpre ⊢
      exact (List.prefix_append _ _).trans hpre)
    subst hq'
    simp [List.isPrefixOf] at hpre
  rw [glues, hany]
  simp [hdot, hslash]

namespace Means

variable {types : TypeTable} {p q : Precedence} {e : Expr} {T : List Token} {t : Tree}

/-- An expression of a level is one of every looser level. -/
theorem looser (h : Means types p e T t) (hpq : p.rank ≤ q.rank) : Means types q e T t := by
  obtain ⟨c, cs, hcs, hc, hsuffix⟩ := h.opens
  exact ⟨h.reads.looser hpq, h.starts, ⟨c, cs, hcs, hc, fun hq => hsuffix (hpq.trans hq)⟩, h.lexes,
    fun hq => h.lexesWord (hpq.trans hq)⟩

theorem name {n : Name} (hn : IsIdentifier n.spelling) :
    Means types .atom (.name n) [.word n.spelling] (.name n.spelling) := by
  obtain ⟨hword, hname⟩ := hn
  obtain ⟨c, w, hs, hc, -⟩ := isWord_cases hword
  have hopens : opensSuffix c = true := by simp [opensSuffix, isWordChar, hc]
  refine ⟨.name hname, ⟨_, _, rfl, by simp, ?_⟩, ⟨c, w, hs, by simp [opensOperand, hopens], fun _ => hopens⟩,
    fun rest ts hrest h => .word hword hrest.endsWord h, fun _ _ rest ts hrest h => .word hword hrest h⟩
  rintro s ⟨⟩
  simp only [isName, Bool.and_eq_true, Bool.not_eq_true'] at hname
  exact hname.1

/-- A number without a sign. -/
theorem number {l : Literal} (hs : l.spelling.toList = c :: w) (hc : c.isDigit = true) (hw : w.all isNumberChar = true)
    (he : ∀ c ∈ w, isExponent c = false) :
    Means types .atom (.literal l) [.number l.spelling] (.number l.spelling) := by
  have hopens : opensSuffix c = true := by simp [opensSuffix, isWordChar, hc]
  refine ⟨.number, ⟨_, _, rfl, by simp, by simp⟩, ⟨c, w, hs, by simp [opensOperand, hopens], fun _ => hopens⟩,
    fun rest ts hrest h => ?_, fun _ hl => by cases hl⟩
  have hnumber := Lexes.number hc hw he hrest h
  rwa [← hs, String.ofList_toList] at hnumber

theorem paren (h : Means types .comma e T t) : Means types .atom (.paren e) (.leftParen :: T ++ [.rightParen]) t := by
  have hprint : ((Expr.paren e).print types).toList = '(' :: ((e.print types).toList ++ [')']) := by
    simp [Expr.print_paren]
  have hlexes (rest : List Char) (ts : List Token) (hrest : Lexes rest ts) :
      Lexes (((Expr.paren e).print types).toList ++ rest) (.leftParen :: T ++ [.rightParen] ++ ts) := by
    have hclose : Lexes (')' :: rest) (.rightParen :: ts) := .bracket (by decide) rfl hrest
    have hinner := h.lexes _ _ (endsNumber_cons (by decide)) hclose
    have hopen : Lexes ('(' :: _) (.leftParen :: _) := .bracket (by decide) rfl hinner
    simpa [hprint] using hopen
  exact ⟨h.reads.paren h.starts, ⟨_, _, rfl, by simp, by simp⟩, ⟨_, _, hprint, by decide, fun _ => by decide⟩,
    fun rest ts _ => hlexes rest ts, fun _ _ rest ts _ => hlexes rest ts⟩

/-! #### Numbers -/

theorem digits (n : Nat) : ∃ c w, (toString n).toList = c :: w ∧ c.isDigit = true ∧
    ∀ c ∈ w, c.isDigit = true := by
  have hdigit : ∀ c ∈ Nat.toDigits 10 n, c.isDigit = true :=
    fun c hc => Nat.isDigit_of_mem_toDigits (by decide) (by decide) hc
  have htext : (toString n).toList = Nat.toDigits 10 n := by simp
  cases hn : Nat.toDigits 10 n with
  | nil => exact absurd hn Nat.toDigits_ne_nil
  | cons c w =>
    rw [hn] at hdigit
    exact ⟨c, w, htext.trans hn, hdigit c (by simp), fun c hc => hdigit c (by simp [hc])⟩

theorem isNumberChar_of_isDigit (hc : c.isDigit = true) : isNumberChar c = true := by
  simp [isNumberChar, isWordChar, hc]

theorem isExponent_of_isDigit (hc : c.isDigit = true) : isExponent c = false := by
  by_contra hx
  simp only [isExponent, Bool.not_eq_false, Bool.or_eq_true, beq_iff_eq] at hx
  rcases hx with ((rfl | rfl) | rfl) | rfl <;> exact absurd hc (by decide)

theorem nat (n : Nat) : Means types .atom (.literal (.int n)) [.number (toString n)] (.number (toString n)) := by
  obtain ⟨c, w, hs, hc, hw⟩ := digits n
  refine number (l := .int n) hs hc ?_ fun c hc => isExponent_of_isDigit (hw c hc)
  rw [List.all_eq_true]
  exact fun c hc => isNumberChar_of_isDigit (hw c hc)

theorem unsigned (n : Nat) :
    Means types .atom (.literal (.unsigned n)) [.number s!"{n}u"] (.number s!"{n}u") := by
  obtain ⟨c, w, hs, hc, hw⟩ := digits n
  have hspelling : (Literal.unsigned n).spelling.toList = c :: (w ++ ['u']) := by
    rw [← List.cons_append, ← hs]
    simp [Literal.spelling, toString]
  refine number hspelling hc ?_ ?_
  · rw [List.all_eq_true]
    intro c hc
    rcases List.mem_append.1 hc with hc | hc
    · exact isNumberChar_of_isDigit (hw c hc)
    · rw [List.mem_singleton.1 hc]; decide
  · intro c hc
    rcases List.mem_append.1 hc with hc | hc
    · exact isExponent_of_isDigit (hw c hc)
    · rw [List.mem_singleton.1 hc]; decide

/-! #### Operators before their operand -/

/-- An operator before a text that does not make it longer. -/
theorem lexes_operator (hop : op ∈ unaryOperators) {cs : List Char} (hglue : ∀ c ∈ cs.head?, glues op.toList c = false)
    (h : Lexes cs ts) :
    Lexes (op.toList ++ cs) (.operator op :: ts) := by
  have hall : ∀ op ∈ unaryOperators, op.toList ∈ punctuators ∧ Token.ofPunctuator op.toList = .operator op := by
    decide
  rw [← (hall op hop).2]
  exact .punctuator (hall op hop).1 hglue h

/-- An operator, and a blank where it is needed, before an expression. -/
theorem prefixed (hop : op ∈ unaryOperators) (h : Means types .unary e T t)
    (hprint : (e'.print types).toList = op.toList ++ (e.print types).toList ∧
        (∀ c cs, (e.print types).toList = c :: cs → op.toList ≠ [c]) ∨
      (e'.print types).toList = op.toList ++ ' ' :: (e.print types).toList) :
    Means types .unary e' (.operator op :: T) (.unary op t) := by
  obtain ⟨c, cs, hcs, hc, -⟩ := h.opens
  have hfirst : ∀ op ∈ unaryOperators, ∃ c cs, op.toList = c :: cs ∧ opensOperand c = true := by
    intro op hop
    have hall : ∀ op ∈ unaryOperators, op.toList.head?.any opensOperand = true := by decide
    have := hall op hop
    cases hop' : op.toList with
    | nil => simp [hop'] at this
    | cons c cs => exact ⟨c, cs, rfl, by simpa [hop'] using this⟩
  obtain ⟨c₀, cs₀, hop₀, hc₀⟩ := hfirst op hop
  refine ⟨h.reads.unary hop, ⟨_, _, rfl, by simp, by simp⟩, ?_, fun rest ts hrest hts => ?_,
    fun hp => absurd hp (by decide)⟩
  · rcases hprint with ⟨hprint, -⟩ | hprint <;> rw [hprint, hop₀] <;>
      exact ⟨c₀, _, rfl, hc₀, fun hp => absurd hp (by decide)⟩
  · have hinner := h.lexes rest ts hrest hts
    rcases hprint with ⟨hprint, hne⟩ | hprint
    · rw [hprint, List.append_assoc]
      refine lexes_operator hop (fun c' hc' => ?_) hinner
      rw [hcs] at hc'
      cases Option.some.inj hc'
      exact glues_of_opensOperand hop hc (hne c cs hcs)
    · rw [hprint, List.append_assoc]
      refine lexes_operator hop (fun c' hc' => ?_) hinner.blank
      cases Option.some.inj hc'
      exact glues_blank

/-- The first character of an operand with suffixes is none of a prefix operator. -/
theorem ne_singleton_of_opens (h : Means types .suffix e T t) (hop : op ∈ unaryOperators) :
    ∀ c cs, (e.print types).toList = c :: cs → op.toList ≠ [c] := by
  obtain ⟨c, cs, hcs, -, hc⟩ := h.opens
  have hall : ∀ op ∈ unaryOperators, op.toList.all (!opensSuffix ·) = true := by decide
  intro c' cs' hcs' hop'
  cases hcs.symm.trans hcs'
  have hfalse : opensSuffix c = false := by simpa using List.all_eq_true.1 (hall op hop) c (by simp [hop'])
  simp [hc (by decide)] at hfalse

theorem deref (h : Means types .suffix e T t) :
    Means types .unary (.deref e) (.operator "*" :: T) (.unary "*" t) :=
  (h.looser (by decide)).prefixed (by decide)
    (.inl ⟨by simp [Expr.print], h.ne_singleton_of_opens (by decide)⟩)

theorem addressOf (h : Means types .suffix e T t) :
    Means types .unary (.addressOf e) (.operator "&" :: T) (.unary "&" t) :=
  (h.looser (by decide)).prefixed (by decide)
    (.inl ⟨by simp [Expr.print], h.ne_singleton_of_opens (by decide)⟩)

theorem unary (hop : op ∈ unaryOperators) (h : Means types .unary e T t) :
    Means types .unary (.unary op e) (.operator op :: T) (.unary op t) := by
  refine h.prefixed hop ?_
  by_cases hpre : op.toList.isPrefixOf (e.print types).toList = true
  · right
    simp [Expr.print, Expr.spaced, hpre]
  · left
    refine ⟨by simp [Expr.print, Expr.spaced, hpre], fun c cs hcs hop' => hpre ?_⟩
    simp [hcs, hop', List.isPrefixOf]

/-- A minus sign in a constant is an operator. -/
theorem negative (n : Nat) : Means types .unary (.literal (.int (.negSucc n)))
    [.operator "-", .number (toString (n + 1))] (.unary "-" (.number (toString (n + 1)))) := by
  refine ((nat (n + 1)).looser (by decide)).prefixed (by decide) (.inl ⟨?_, ?_⟩)
  · simp [Expr.print, Literal.spelling, toString, Int.repr]
  · exact ((nat (n + 1)).looser (by decide)).ne_singleton_of_opens (by decide)

/-- A cast to a type that has a name. -/
theorem cast (htypes : types.WellNamed) (hname : (types.headName? ty.head).isSome = true)
    (h : Means types .unary e T t) :
    Means types .unary (.cast ty e) (.leftParen :: (types.typeName ty).tokens ++ .rightParen :: T)
      (.cast (types.typeName ty) t) := by
  obtain ⟨name, hname'⟩ := Option.isSome_iff_exists.1 hname
  obtain ⟨hne, hwords, -⟩ := headWords_spec htypes hname'
  have hprint : ((Expr.cast ty e).print types).toList =
      '(' :: ((types.render ty).toList ++ ')' :: (e.print types).toList) := by simp [Expr.print]
  refine ⟨h.reads.cast (TypeName.castType? hne fun s hs => (hwords s hs).2), ⟨_, _, rfl, by simp, by simp⟩,
    ⟨_, _, hprint, by decide, fun hp => absurd hp (by decide)⟩, fun rest ts hrest hts => ?_,
    fun hp => absurd hp (by decide)⟩
  have hclose : Lexes (')' :: _) (.rightParen :: _) := .bracket (by decide) rfl (h.lexes rest ts hrest hts)
  have hopen : Lexes ('(' :: _) (.leftParen :: _) := .bracket (by decide) rfl (lexes_type htypes hname hclose)
  simpa [hprint] using hopen

/-! #### Operators between operands -/

theorem binaryOperators_spec {p : Precedence} (hop : (op, p) ∈ binaryOperators) :
    op.toList ∈ punctuators ∧ Token.ofPunctuator op.toList = .operator op ∧
      (Token.operator op).level? = some p := by
  have hall : ∀ x ∈ binaryOperators, x.1.toList ∈ punctuators ∧ Token.ofPunctuator x.1.toList = .operator x.1 ∧
      (Token.operator x.1).level? = some x.2 := by decide
  exact hall (op, p) hop

/-- Two operands with a punctuator and blanks between them. -/
theorem lexes_between {e : Expr} {T : List Token} {t : Tree} (h : Means types p e T t) (h' : Means types p' e' T' t')
    (op : List Char) (hop : op ∈ punctuators) (hrest : EndsNumber rest) (hts : Lexes rest ts) :
    Lexes ((e.print types).toList ++ ' ' :: (op ++ ' ' :: ((e'.print types).toList ++ rest)))
      (T ++ .ofPunctuator op :: (T' ++ ts)) := by
  have hright := (h'.lexes rest ts hrest hts).blank
  have hmid := Lexes.punctuator hop (fun c hc => by cases Option.some.inj hc; exact glues_blank) hright
  exact h.lexes _ _ (endsNumber_cons (by decide)) hmid.blank

theorem binary_of_reads {q : Precedence} (hop : (op, q) ∈ binaryOperators) (h : Means types p e T t)
    (h' : Means types p' e' T' t') (hreads : Reads q (T ++ .operator op :: T') (.binary op t t')) :
    Means types q (.binary op e e') (T ++ .operator op :: T') (.binary op t t') := by
  obtain ⟨hpunct, htok, -⟩ := binaryOperators_spec hop
  obtain ⟨c, cs, hcs, hc, -⟩ := h.opens
  have hrank : ¬ q.rank ≤ 1 := by
    have hall : ∀ x ∈ binaryOperators, ¬ x.2.rank ≤ 1 := by decide
    exact hall _ hop
  refine ⟨hreads, h.starts.append _, ⟨c, _, by simp [Expr.print, hcs]; rfl, hc, fun hq => absurd hq hrank⟩,
    fun rest ts hrest hts => ?_, fun hq => absurd hq hrank⟩
  have hlexes := lexes_between h h' _ hpunct hrest hts
  rw [htok] at hlexes
  simpa [Expr.print] using hlexes

/-- An operator that groups to the left. -/
theorem binary (hp : p.groupsLeft = true) (hop : (op, p) ∈ binaryOperators) (h : Means types p e T t)
    (h' : Means types p.tighter e' T' t') :
    Means types p (.binary op e e') (T ++ .operator op :: T') (.binary op t t') :=
  binary_of_reads hop h h' (.binary hp (binaryOperators_spec hop).2.2 h.reads h'.reads)

theorem assign (hop : (op, .assignment) ∈ binaryOperators) (h : Means types .logicalOr e T t)
    (h' : Means types .assignment e' T' t') :
    Means types .assignment (.binary op e e') (T ++ .operator op :: T') (.binary op t t') :=
  binary_of_reads hop h h'
    (.assign (binaryOperators_spec hop).2.2 h.reads.conditional_of_logicalOr h'.reads)

/-- A conditional, of which the last part may be another one. -/
theorem conditional {c : Expr} {C : List Token} {tc : Tree} (hc : Means types .logicalOr c C tc)
    (h : Means types .comma e T t) (h' : Means types .assignment e' T' t') (hlast : ReadsConditional T' t') :
    Means types .assignment (.conditional c e e') (C ++ .question :: T ++ .colon :: T')
      (.conditional tc t t') := by
  obtain ⟨c₀, cs, hcs, hc₀, -⟩ := hc.opens
  refine ⟨(ReadsConditional.conditional hc.reads h.reads hlast).assignment, ?_,
    ⟨c₀, _, by simp [Expr.print, hcs]; rfl, hc₀, fun hq => absurd hq (by decide)⟩,
    fun rest ts hrest hts => ?_, fun hq => absurd hq (by decide)⟩
  · simpa using hc.starts.append (.question :: T ++ .colon :: T')
  · have hlexes := lexes_between h h' [':'] (by decide) hrest hts
    have hfirst : Lexes ('?' :: ' ' :: _) (.question :: _) :=
      .punctuator (p := ['?']) (by decide) (fun c hc => by cases Option.some.inj hc; exact glues_blank) hlexes.blank
    have hall := hc.lexes _ _ (endsNumber_cons (by decide)) hfirst.blank
    simpa [Expr.print, Token.ofPunctuator] using hall

/-! #### Suffixes -/

/-- What a suffix adds to the text and the tokens of an operand. -/
theorem suffixed {S : List Token} (h : Means types .suffix e T t) (text : List Char)
    (hprint : (e'.print types).toList = (e.print types).toList ++ text) (hreads : Reads .suffix (T ++ S) t')
    (hlexes : ∀ rest ts, EndsWord rest → Lexes rest ts →
      Lexes ((e.print types).toList ++ (text ++ rest)) (T ++ (S ++ ts))) :
    Means types .suffix e' (T ++ S) t' := by
  obtain ⟨c, cs, hcs, hc, hsuffix⟩ := h.opens
  have hall (rest : List Char) (ts : List Token) (hrest : EndsWord rest) (hts : Lexes rest ts) :
      Lexes ((e'.print types).toList ++ rest) (T ++ S ++ ts) := by
    simpa [hprint] using hlexes rest ts hrest hts
  exact ⟨hreads, h.starts.append _, ⟨c, cs ++ text, by simp [hprint, hcs], hc, hsuffix⟩,
    fun rest ts hrest => hall rest ts hrest.endsWord, fun _ _ => hall⟩

/-- The name of a member after its punctuator. -/
theorem lexes_field (op : List Char) (hop : op ∈ punctuators) (hrest : EndsWord rest) (hts : Lexes rest ts) :
    Lexes (op ++ (field.spelling.toList ++ rest)) (.ofPunctuator op :: .word field.spelling :: ts) := by
  obtain ⟨c, w, hs, hc, -⟩ := isWord_cases (isWord_field field)
  refine .punctuator hop (fun c' hc' => ?_) (.word (isWord_field field) hrest hts)
  rw [hs] at hc'
  cases Option.some.inj hc'
  refine glues_of_notMem (notMem_punctuators_of_isWordChar (by simp [isWordChar, hc])) fun _ => ?_
  by_contra hdigit
  simp [isWordStart_of_isDigit (by simpa using hdigit)] at hc

theorem member (h : Means types .suffix e T t) (hliteral : e.isLiteral = false) :
    Means types .suffix (.member e field) (T ++ [.dot, .word field.spelling]) (.member t field.spelling) := by
  refine h.suffixed ('.' :: field.spelling.toList) (by simp [Expr.print]) h.reads.member
    fun rest ts hrest hts => ?_
  exact h.lexesWord (by decide) hliteral _ _ (endsWord_cons (by decide))
    (lexes_field ['.'] (by decide) hrest hts)

theorem arrow (h : Means types .suffix e T t) :
    Means types .suffix (.arrow e field) (T ++ [.arrow, .word field.spelling])
      (.member (.unary "*" t) field.spelling) := by
  refine h.suffixed ('-' :: '>' :: field.spelling.toList) (by simp [Expr.print]) h.reads.arrow
    fun rest ts hrest hts => ?_
  exact h.lexes _ _ (endsNumber_cons (by decide)) (lexes_field ['-', '>'] (by decide) hrest hts)

theorem index {i : Expr} {I : List Token} {ti : Tree} (h : Means types .suffix e T t)
    (hi : Means types .comma i I ti) :
    Means types .suffix (.index e i) (T ++ (.leftBracket :: I ++ [.rightBracket])) (.index t ti) := by
  refine h.suffixed ('[' :: ((i.print types).toList ++ [']'])) (by simp [Expr.print])
    (by simpa using h.reads.index hi.reads) fun rest ts hrest hts => ?_
  have hclose : Lexes (']' :: rest) (.rightBracket :: ts) := .bracket (by decide) rfl hts
  have hinner := hi.lexes _ _ (endsNumber_cons (by decide)) hclose
  have hopen : Lexes ('[' :: _) (.leftBracket :: _) := .bracket (by decide) rfl hinner
  simpa using h.lexes _ _ (endsNumber_cons (by decide)) hopen

/-- The text of a list of arguments. -/
theorem lexes_arguments (h : List.Forall₂ (fun e x => Means types .assignment e x.1 x.2) es xs)
    (hrest : EndsNumber rest) (hts : Lexes rest ts) :
    Lexes ((", ".intercalate (Expr.printEach types es)).toList ++ rest)
      (commaSeparated (xs.map (·.1)) ++ ts) := by
  rw [String.toList_intercalate]
  induction h with
  | nil => simpa [Expr.printEach, commaSeparated] using hts
  | @cons e x es xs he hes ih =>
    cases hes with
    | nil => simpa [Expr.printEach, commaSeparated] using he.lexes rest ts hrest hts
    | @cons e' x' es xs he' hes =>
      have hcomma := Lexes.punctuator (p := [',']) (by decide)
        (fun c hc => by cases Option.some.inj hc; exact glues_blank) ih.blank
      have hall := he.lexes _ _ (endsNumber_cons (by decide)) hcomma
      simpa [Expr.printEach, commaSeparated, Token.ofPunctuator, List.intercalate] using hall

theorem call (h : Means types .suffix e T t)
    (hargs : List.Forall₂ (fun e x => Means types .assignment e x.1 x.2) es xs) :
    Means types .suffix (.call e es) (T ++ (.leftParen :: commaSeparated (xs.map (·.1)) ++ [.rightParen]))
      (.call t (xs.map (·.2))) := by
  have hparts : List.Forall₂ (Reads .assignment) (xs.map (·.1)) (xs.map (·.2)) ∧
      ∀ T ∈ xs.map (·.1), StartsOperand T := by
    induction hargs with
    | nil => simp
    | cons hx _ ih => exact ⟨.cons hx.reads ih.1, List.forall_mem_cons.2 ⟨hx.starts, ih.2⟩⟩
  refine h.suffixed ('(' :: ((", ".intercalate (Expr.printEach types es)).toList ++ [')'])) (by simp [Expr.print])
    (by simpa using h.reads.call hparts.1 hparts.2) fun rest ts hrest hts => ?_
  have hclose : Lexes (')' :: rest) (.rightParen :: ts) := .bracket (by decide) rfl hts
  have hinner := lexes_arguments hargs (endsNumber_cons (by decide)) hclose
  have hopen : Lexes ('(' :: _) (.leftParen :: _) := .bracket (by decide) rfl hinner
  simpa using h.lexes _ _ (endsNumber_cons (by decide)) hopen

/-- The tree is what is read in the text, and nothing else is. -/
theorem readsAs_iff (h : Means types p e T t) : ReadsAs (e.print types) t' ↔ t' = t := by
  have hreads : ReadsAs (e.print types) t := by
    have hyields := (h.reads.looser (show p.rank ≤ Precedence.comma.rank by cases p <;> decide)).yields
      (by decide) [] .nil
    have hlexes := h.lexes [] [] endsNumber_nil .nil
    exact ⟨T, by simpa using hlexes, by simpa using hyields⟩
  constructor
  · intro h'
    exact h'.unique hreads
  · rintro rfl
    exact hreads

end Means

end CBackend.C
