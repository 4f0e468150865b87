import Mathlib.Data.List.Find

/-!
# Tokens of C

How a C compiler cuts a text into tokens: at each place the longest piece that can be a token is taken,
whatever comes after it. A number takes everything that looks like one, also where the result is no
number, and a comment is not among the texts that are read.
-/

namespace CBackend.C

/-- A token of an expression. -/
inductive Token
  /-- An identifier or a keyword. -/
  | word (s : String)
  | number (s : String)
  | leftParen
  | rightParen
  | leftBracket
  | rightBracket
  | dot
  | arrow
  | question
  | colon
  /-- Any other punctuator. -/
  | operator (s : String)
  deriving DecidableEq, Repr

variable {ts : List Token} {c : Char} {p rest w : List Char}

/-! ### Characters -/

/-- A character that an identifier can start with. -/
def isWordStart (c : Char) : Bool :=
  c.isAlpha || c == '_'

/-- A character of an identifier. -/
def isWordChar (c : Char) : Bool :=
  isWordStart c || c.isDigit

/-- A character of a number. -/
def isNumberChar (c : Char) : Bool :=
  isWordChar c || c == '.'

/-- A letter after which a sign belongs to the number. -/
def isExponent (c : Char) : Bool :=
  c == 'e' || c == 'E' || c == 'p' || c == 'P'

/-- Whether a text starts with a number. -/
def startsNumber : List Char → Bool
  | [] => false
  | c :: cs => c.isDigit || (c == '.' && cs.head?.any (·.isDigit))

/-- The number at the start of a text, and the rest. -/
def spanNumber : List Char → List Char × List Char
  | [] => ([], [])
  | [c] => if isNumberChar c then ([c], []) else ([], [c])
  | c :: c' :: cs =>
    if isExponent c && (c' == '+' || c' == '-') then
      (c :: c' :: (spanNumber cs).1, (spanNumber cs).2)
    else if isNumberChar c then (c :: (spanNumber (c' :: cs)).1, (spanNumber (c' :: cs)).2)
    else ([], c :: c' :: cs)

/-- C's punctuators, longer ones first. -/
def punctuators : List (List Char) :=
  [['%', ':', '%', ':'], ['<', '<', '='], ['>', '>', '='], ['.', '.', '.'],
    ['-', '>'], ['+', '+'], ['-', '-'], ['<', '<'], ['>', '>'], ['<', '='], ['>', '='], ['=', '='],
    ['!', '='], ['&', '&'], ['|', '|'], ['*', '='], ['/', '='], ['%', '='], ['+', '='], ['-', '='],
    ['&', '='], ['^', '='], ['|', '='], ['#', '#'], ['<', ':'], [':', '>'], ['<', '%'], ['%', '>'],
    ['%', ':'],
    ['['], [']'], ['('], [')'], ['\x7b'], ['\x7d'], ['.'], ['&'], ['*'], ['+'], ['-'], ['~'], ['!'],
    ['/'], ['%'], ['<'], ['>'], ['^'], ['|'], ['?'], [':'], [';'], ['='], [','], ['#']]

/-- Whether a text starts with a comment. -/
def startsComment : List Char → Bool
  | [] => false
  | c :: cs => c == '/' && cs.head?.any fun c' => c' == '/' || c' == '*'

/-- The token of a punctuator. -/
def Token.ofPunctuator : List Char → Token
  | ['('] => leftParen
  | [')'] => rightParen
  | ['['] => leftBracket
  | [']'] => rightBracket
  | ['.'] => dot
  | ['-', '>'] => arrow
  | ['?'] => question
  | [':'] => colon
  | p => operator (.ofList p)

/-! ### Longest tokens -/

/-- The longest token at the start of a text, and the rest. -/
def Token.next? : List Char → Option (Token × List Char)
  | [] => none
  | c :: cs =>
    if isWordStart c then some (word (.ofList (c :: cs.takeWhile isWordChar)), cs.dropWhile isWordChar)
    else if startsNumber (c :: cs) then
      some (number (.ofList (spanNumber (c :: cs)).1), (spanNumber (c :: cs)).2)
    else if startsComment (c :: cs) then none
    else
      (punctuators.find? (·.isPrefixOf (c :: cs))).map fun p => (ofPunctuator p, (c :: cs).drop p.length)

/-- The tokens of a text. The number bounds how many steps are taken. -/
def lex : Nat → List Char → Option (List Token)
  | _, [] => some []
  | 0, _ :: _ => none
  | n + 1, c :: cs =>
    if c = ' ' then lex n cs
    else
      match Token.next? (c :: cs) with
      | some (t, rest) => (lex n rest).map (t :: ·)
      | none => none

/-- The tokens of a text. -/
def Lexes (cs : List Char) (ts : List Token) : Prop :=
  ∃ n, lex n cs = some ts

theorem lex_mono {n : Nat} {cs : List Char} (h : lex n cs = some ts) {n' : Nat} (hn : n ≤ n') :
    lex n' cs = some ts := by
  induction n generalizing cs ts n' with
  | zero =>
    cases cs with
    | nil => cases n' <;> exact h
    | cons c cs => cases h
  | succ n ih =>
    obtain ⟨k, rfl⟩ : ∃ k, n' = k + 1 := ⟨n' - 1, by omega⟩
    cases cs with
    | nil => exact h
    | cons c cs =>
      simp only [lex] at h ⊢
      by_cases hc : c = ' '
      · simp only [hc, if_true] at h ⊢
        exact ih h (by omega)
      · simp only [hc, if_false] at h ⊢
        split at h
        · obtain ⟨ts', hts', rfl⟩ := Option.map_eq_some_iff.1 h
          simp [ih hts' (show n ≤ k by omega)]
        · cases h

namespace Lexes

variable {cs rest : List Char} {ts ts' : List Token}

/-- A text has one list of tokens. -/
theorem unique (h : Lexes cs ts) (h' : Lexes cs ts') : ts = ts' := by
  obtain ⟨n, hn⟩ := h
  obtain ⟨n', hn'⟩ := h'
  have hmax := (lex_mono hn (Nat.le_max_left n n')).symm.trans (lex_mono hn' (Nat.le_max_right n n'))
  exact Option.some.inj hmax

theorem nil : Lexes [] [] :=
  ⟨0, rfl⟩

theorem blank (h : Lexes cs ts) : Lexes (' ' :: cs) ts := by
  obtain ⟨n, hn⟩ := h
  exact ⟨n + 1, by simp [lex, hn]⟩

/-- The longest token, and then the tokens of the rest. -/
theorem next {t : Token} (hc : c ≠ ' ') (ht : Token.next? (c :: cs) = some (t, rest)) (h : Lexes rest ts) :
    Lexes (c :: cs) (t :: ts) := by
  obtain ⟨n, hn⟩ := h
  exact ⟨n + 1, by simp [lex, hc, ht, hn]⟩

end Lexes

/-! ### Words -/

theorem isWordStart_ne_blank (h : isWordStart c = true) : c ≠ ' ' := by
  rintro rfl
  exact absurd h (by decide)

/-- What comes after a word does not start with one of its characters. -/
def EndsWord (rest : List Char) : Prop :=
  ∀ c ∈ rest.head?, isWordChar c = false

theorem takeWhile_append_of_endsWord (hw : w.all isWordChar = true) (hrest : EndsWord rest) :
    (w ++ rest).takeWhile isWordChar = w ∧ (w ++ rest).dropWhile isWordChar = rest := by
  induction w with
  | nil =>
    cases rest with
    | nil => simp
    | cons c rest =>
      have hc : isWordChar c = false := hrest c rfl
      simp [hc]
  | cons c w ih =>
    simp only [List.all_cons, Bool.and_eq_true] at hw
    simp [hw.1, ih hw.2]

theorem endsWord_cons (hc : isWordChar c = false) : EndsWord (c :: rest) := by
  intro c' hc'
  cases Option.some.inj hc'
  exact hc

/-- Whether a text is one word. -/
def isWord (s : String) : Bool :=
  match s.toList with
  | [] => false
  | c :: w => isWordStart c && w.all isWordChar

theorem isWord_cases {s : String} (h : isWord s = true) :
    ∃ c w, s.toList = c :: w ∧ isWordStart c = true ∧ w.all isWordChar = true := by
  unfold isWord at h
  split at h
  · cases h
  · next c w hs => exact ⟨c, w, hs, by simpa using h⟩

/-- A word whose end what follows shows. -/
theorem Lexes.word {s : String} (hs : isWord s = true) (hrest : EndsWord rest) (h : Lexes rest ts) :
    Lexes (s.toList ++ rest) (.word s :: ts) := by
  obtain ⟨c, w, htext, hc, hw⟩ := isWord_cases hs
  obtain ⟨htake, hdrop⟩ := takeWhile_append_of_endsWord hw hrest
  have hspelled : String.ofList (c :: w) = s := by rw [← htext, String.ofList_toList]
  rw [htext]
  exact .next (isWordStart_ne_blank hc) (by simp [Token.next?, hc, htake, hdrop, hspelled]) h

/-! ### Numbers -/

theorem isDigit_ne_blank (h : c.isDigit = true) : c ≠ ' ' := by
  rintro rfl
  exact absurd h (by decide)

theorem isWordStart_of_isDigit (h : c.isDigit = true) : isWordStart c = false := by
  have halpha : c.isAlpha = (decide (c.val ≥ 'A'.val ∧ c.val ≤ 'Z'.val) ||
      (decide (c.val ≥ 'a'.val) && decide (c.val ≤ 'z'.val))) := rfl
  simp only [Char.isDigit, isWordStart, halpha, Bool.and_eq_true, Bool.decide_and,
    decide_eq_true_eq, Bool.or_eq_false_iff, decide_eq_false_iff_not, Bool.and_eq_false_iff,
    beq_eq_false_iff_ne, UInt32.le_iff_toNat_le, ge_iff_le] at h ⊢
  have h9 : '9'.val.toNat = 57 := rfl
  have hA : 'A'.val.toNat = 65 := rfl
  have ha : 'a'.val.toNat = 97 := rfl
  refine ⟨⟨by omega, by omega⟩, ?_⟩
  rintro rfl
  exact absurd h (by decide)

/-- What comes after a number does not go on with it. -/
def EndsNumber (rest : List Char) : Prop :=
  ∀ c ∈ rest.head?, isNumberChar c = false

theorem endsNumber_nil : EndsNumber [] := by
  intro c hc
  cases hc

theorem endsNumber_cons (hc : isNumberChar c = false) : EndsNumber (c :: rest) := by
  intro c' hc'
  cases Option.some.inj hc'
  exact hc

theorem EndsNumber.endsWord (h : EndsNumber rest) : EndsWord rest := by
  intro c hc
  have hn := h c hc
  simp only [isNumberChar, Bool.or_eq_false_iff] at hn
  exact hn.1

theorem spanNumber_eq_nil (hrest : EndsNumber rest) :
    (∀ c ∈ rest.head?, isExponent c = false) → spanNumber rest = ([], rest) := by
  intro he
  match rest with
  | [] => rfl
  | [c] =>
    have hc : isNumberChar c = false := hrest c rfl
    simp [spanNumber, hc]
  | c :: c' :: cs =>
    have hc : isNumberChar c = false := hrest c rfl
    have hx : isExponent c = false := he c rfl
    simp [spanNumber, hc, hx]

theorem isNumberChar_of_isExponent (h : isExponent c = true) : isNumberChar c = true := by
  simp only [isExponent, Bool.or_eq_true, beq_iff_eq] at h
  rcases h with ((rfl | rfl) | rfl) | rfl <;> decide

/-- A number without an exponent ends where no more of its characters follow. -/
theorem spanNumber_append (hw : w.all isNumberChar = true) (he : ∀ c ∈ w, isExponent c = false)
    (hrest : EndsNumber rest) :
    spanNumber (w ++ rest) = (w, rest) := by
  have hnil : spanNumber rest = ([], rest) := by
    apply spanNumber_eq_nil hrest
    intro c hc
    by_contra hx
    have hn := isNumberChar_of_isExponent (by simpa using hx)
    simp [hrest c hc] at hn
  induction w with
  | nil => exact hnil
  | cons c w ih =>
    simp only [List.all_cons, Bool.and_eq_true] at hw
    have ih := ih hw.2 fun c' hc' => he c' (List.mem_cons_of_mem _ hc')
    have hc := he c List.mem_cons_self
    rw [List.cons_append]
    cases hwr : w ++ rest with
    | nil =>
      simp only [hwr, spanNumber, Prod.mk.injEq] at ih
      simp [spanNumber, hw.1, ← ih.1, ← ih.2]
    | cons c' cs =>
      rw [hwr] at ih
      simp [spanNumber, hc, hw.1, ih]

/-- A number without an exponent whose end what follows shows. -/
theorem Lexes.number (hc : c.isDigit = true) (hw : w.all isNumberChar = true) (he : ∀ c ∈ w, isExponent c = false)
    (hrest : EndsNumber rest) (h : Lexes rest ts) : Lexes (c :: w ++ rest) (.number (.ofList (c :: w)) :: ts) := by
  have hcn : isNumberChar c = true := by simp [isNumberChar, isWordChar, hc]
  have hce : isExponent c = false := by
    by_contra hx
    simp only [isExponent, Bool.not_eq_false, Bool.or_eq_true, beq_iff_eq] at hx
    rcases hx with ((rfl | rfl) | rfl) | rfl <;> exact absurd hc (by decide)
  have hstart : startsNumber (c :: (w ++ rest)) = true := by
    cases w ++ rest <;> simp [startsNumber, hc]
  have hspan : spanNumber (c :: (w ++ rest)) = (c :: w, rest) := by
    refine spanNumber_append (w := c :: w) (by simp [hcn, hw]) ?_ hrest
    intro c' hc'
    rcases List.mem_cons.1 hc' with rfl | hc'
    · exact hce
    · exact he c' hc'
  refine .next (isDigit_ne_blank hc) ?_ h
  simp [Token.next?, isWordStart_of_isDigit hc, hstart, hspan]

/-! ### Punctuators -/

/-- Whether a character after a punctuator makes something longer of it. -/
def glues (p : List Char) (c : Char) : Bool :=
  punctuators.any (fun q => (p ++ [c]).isPrefixOf q) || (p == ['.'] && c.isDigit) ||
    (p == ['/'] && (c == '/' || c == '*'))

theorem isPrefixOf_iff {q : List Char} : p.isPrefixOf q = true ↔ p <+: q :=
  List.isPrefixOf_iff_prefix

theorem isPrefixOf_append_cases {q : List Char} (h : q.isPrefixOf (p ++ rest) = true) :
    q.isPrefixOf p = true ∨ ∃ c ∈ rest.head?, (p ++ [c]).isPrefixOf q = true := by
  simp only [isPrefixOf_iff] at h ⊢
  rcases List.prefix_or_prefix_of_prefix h (List.prefix_append p rest) with hq | ⟨r, rfl⟩
  · exact .inl hq
  · cases r with
    | nil => exact .inl (by simp)
    | cons c r =>
      obtain ⟨r', rfl⟩ := (List.prefix_append_right_inj p).1 h
      exact .inr ⟨c, rfl, r, by simp⟩

/-- What follows a punctuator does not change which one is read. -/
theorem find?_punctuators_append (hrest : ∀ c ∈ rest.head?, glues p c = false) :
    punctuators.find? (·.isPrefixOf (p ++ rest)) = punctuators.find? (·.isPrefixOf p) := by
  apply List.find?_congr
  intro q hq
  rw [Bool.eq_iff_iff]
  constructor
  · intro h
    rcases isPrefixOf_append_cases h with h | ⟨c, hc, h⟩
    · exact h
    · have hglue := hrest c hc
      simp only [glues, Bool.or_eq_false_iff, List.any_eq_false] at hglue
      exact absurd h (hglue.1.1 q hq)
  · intro h
    rw [isPrefixOf_iff] at h ⊢
    exact h.trans (List.prefix_append p rest)

/-- Punctuators are told from blanks, words, numbers and comments by their first two characters. -/
theorem punctuator_cases (hp : p ∈ punctuators) :
    punctuators.find? (·.isPrefixOf p) = some p ∧ ∃ c p', p = c :: p' ∧ c ≠ ' ' ∧ isWordStart c = false ∧
      c.isDigit = false ∧ (c = '.' → p' = [] ∨ p'.head? = some '.') ∧ (c = '/' → p' = [] ∨ p'.head? = some '=') := by
  have hall : ∀ p ∈ punctuators, (punctuators.find? (·.isPrefixOf p) == some p &&
      match p with
      | [] => false
      | c :: p' => c != ' ' && !isWordStart c && !c.isDigit && (c != '.' || p' == [] || p'.head? == some '.') &&
        (c != '/' || p' == [] || p'.head? == some '=')) = true := by decide
  have h := hall p hp
  cases p with
  | nil => simp at h
  | cons c p' =>
    simp only [Bool.and_eq_true, Bool.or_eq_true, beq_iff_eq, bne_iff_ne, Bool.not_eq_true'] at h
    refine ⟨h.1, c, p', rfl, h.2.1.1.1.1, h.2.1.1.1.2, h.2.1.1.2, fun hc => ?_, fun hc => ?_⟩
    · simpa [hc] using h.2.1.2
    · simpa [hc] using h.2.2

/-- A punctuator that what follows does not make longer. -/
theorem Lexes.punctuator (hp : p ∈ punctuators) (hrest : ∀ c ∈ rest.head?, glues p c = false) (h : Lexes rest ts) :
    Lexes (p ++ rest) (.ofPunctuator p :: ts) := by
  obtain ⟨hfind, c, p', rfl, hblank, hword, hdigit, hdot, hslash⟩ := punctuator_cases hp
  have hnumber : startsNumber (c :: (p' ++ rest)) = false := by
    by_cases hc : c = '.'
    · subst hc
      rcases hdot rfl with rfl | hp'
      · suffices ∀ c ∈ rest.head?, c.isDigit = false by
          simpa [startsNumber, Option.any_eq_false] using this
        intro c hc
        have hglue := hrest c hc
        simp only [glues, Bool.or_eq_false_iff] at hglue
        simpa using hglue.1.2
      · simp [startsNumber, hp']
    · simp [startsNumber, hdigit, hc]
  have hcomment : startsComment (c :: (p' ++ rest)) = false := by
    by_cases hc : c = '/'
    · subst hc
      rcases hslash rfl with rfl | hp'
      · suffices ∀ c ∈ rest.head?, (c == '/' || c == '*') = false by
          simpa [startsComment, Option.any_eq_false] using this
        intro c hc
        have hglue := hrest c hc
        simp only [glues, Bool.or_eq_false_iff] at hglue
        simpa using hglue.2
      · simp [startsComment, hp']
    · simp [startsComment, hc]
  refine .next hblank ?_ h
  change Token.next? (c :: (p' ++ rest)) = _
  rw [Token.next?, if_neg (by simp [hword]), if_neg (by simp [hnumber]), if_neg (by simp [hcomment]),
    ← List.cons_append, find?_punctuators_append hrest, hfind]
  simp

end CBackend.C
