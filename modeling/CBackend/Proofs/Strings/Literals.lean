import CBackend.Text.CString
import Mathlib.Data.UInt

/-!
# Reading string literals

How C reads a string literal. Trigraphs are replaced before anything else. Then the characters between the quotes stand
for themselves, except that a backslash begins an escape: a letter or mark, one to three octal digits, or any number of
hexadecimal digits. Digits belong to an escape as long as they can.
-/

namespace CBackend.C

open Text

variable {c : Char} {cs : List Char} {b : UInt8}

/-! ### Trigraphs -/

/-- What a trigraph with the given third character stands for. -/
def trigraph? : Char → Option Char
  | '=' => some '#'
  | '(' => some '['
  | '/' => some '\\'
  | ')' => some ']'
  | '\'' => some '^'
  | '<' => some '\x7b'
  | '!' => some '|'
  | '>' => some '\x7d'
  | '-' => some '~'
  | _ => none

/-- The text with its trigraphs replaced, from left to right. -/
def replaceTrigraphs : List Char → List Char
  | '?' :: '?' :: c :: cs =>
    match trigraph? c with
    | some r => r :: replaceTrigraphs cs
    | none => '?' :: replaceTrigraphs ('?' :: c :: cs)
  | c :: cs => c :: replaceTrigraphs cs
  | [] => []

/-- No trigraph begins where the next character is not a question mark. -/
theorem replaceTrigraphs_cons (h : c = '?' → cs.head? ≠ some '?') :
    replaceTrigraphs (c :: cs) = c :: replaceTrigraphs cs := by
  rw [replaceTrigraphs]
  rintro c' cs' rfl rfl
  exact h rfl rfl

/-! ### Escapes -/

/-- The byte that a letter or mark stands for after a backslash. -/
def simpleEscapeByte? : Char → Option UInt8
  | '\'' => some 0x27
  | '"' => some 0x22
  | '?' => some 0x3f
  | '\\' => some 0x5c
  | 'a' => some 0x07
  | 'b' => some 0x08
  | 'f' => some 0x0c
  | 'n' => some 0x0a
  | 'r' => some 0x0d
  | 't' => some 0x09
  | 'v' => some 0x0b
  | _ => none

/-- The value of an octal digit. -/
def octalDigit? (c : Char) : Option Nat :=
  if '0' ≤ c && c ≤ '7' then some (c.toNat - '0'.toNat) else none

/-- The value of a hexadecimal digit in either case. -/
def anyHexDigit? (c : Char) : Option Nat :=
  if c.isDigit then some (c.toNat - '0'.toNat)
  else if 'a' ≤ c && c ≤ 'f' then some (c.toNat - 'a'.toNat + 10)
  else if 'A' ≤ c && c ≤ 'F' then some (c.toNat - 'A'.toNat + 10)
  else none

/-- The byte with the value of a numeric escape, which must not be too large for one. -/
def byte? (n : Nat) : Option UInt8 :=
  if n < 256 then some (UInt8.ofNat n) else none

/-- Where reading stands inside a string literal. -/
inductive LiteralState
  | text
  /-- After a backslash. -/
  | backslash
  /-- In an octal escape, with its value and the number of its digits so far. -/
  | octal (value digits : Nat)
  /-- In a hexadecimal escape, with its value once it has a digit. -/
  | hex (value : Option Nat)
  deriving DecidableEq, Repr

namespace LiteralState

/-- One character outside of escapes: the bytes that are complete with it, and where reading stands then unless the
literal is over. -/
def textStep (c : Char) : Option (List UInt8 × Option LiteralState) :=
  if c = '"' then some ([], none)
  else if c = '\\' then some ([], some backslash)
  else if 0x20 ≤ c.toNat && c.toNat ≤ 0x7e then some ([UInt8.ofNat c.toNat], some text)
  else none

/-- A numeric escape that ends before a character. -/
def flush (value : Nat) (c : Char) : Option (List UInt8 × Option LiteralState) :=
  (byte? value).bind fun b => (textStep c).map fun r => (b :: r.1, r.2)

/-- One character of a literal. -/
def step : LiteralState → Char → Option (List UInt8 × Option LiteralState)
  | text, c => textStep c
  | backslash, c =>
    match simpleEscapeByte? c, octalDigit? c with
    | some b, _ => some ([b], some text)
    | none, some n => some ([], some (octal n 1))
    | none, none => if c = 'x' then some ([], some (hex none)) else none
  | octal value digits, c =>
    match octalDigit? c with
    | some n => if digits < 3 then some ([], some (octal (8 * value + n) (digits + 1))) else flush value c
    | none => flush value c
  | hex value, c =>
    match anyHexDigit? c, value with
    | some n, _ => some ([], some (hex (some (16 * value.getD 0 + n))))
    | none, some value => flush value c
    | none, none => none

end LiteralState

/-- The bytes of a literal from a point inside of it, and what follows the closing quote. -/
def readLiteral : LiteralState → List Char → Option (List UInt8 × List Char)
  | _, [] => none
  | state, c :: cs =>
    (state.step c).bind fun r =>
      match r.2 with
      | none => some (r.1, cs)
      | some next => (readLiteral next cs).map fun p => (r.1 ++ p.1, p.2)

/-- The bytes of the string literal that a text begins with, and what follows it. -/
def readString : List Char → Option (List UInt8 × List Char)
  | '"' :: cs => readLiteral .text cs
  | _ => none

/-! ### The escapes of the output -/

theorem octalDigit?_digit {n : Nat} (h : n < 8) : octalDigit? (digit n) = some n := by
  revert n
  decide

theorem simpleEscapeByte?_digit {n : Nat} (h : n < 8) : simpleEscapeByte? (digit n) = none := by
  revert n
  decide

/-- What is read with a byte before it. -/
def precede (b : UInt8) (r : List UInt8 × List Char) : List UInt8 × List Char :=
  (b :: r.1, r.2)

/-- A step that completes one byte. -/
theorem readLiteral_cons_byte {state : LiteralState} {next : LiteralState} (h : state.step c = some ([b], some next))
    (cs : List Char) :
    readLiteral state (c :: cs) = (readLiteral next cs).map (precede b) := by
  rw [readLiteral, h]
  rfl

/-- A step that completes none. -/
theorem readLiteral_cons_nothing {state : LiteralState} {next : LiteralState} (h : state.step c = some ([], some next))
    (cs : List Char) :
    readLiteral state (c :: cs) = readLiteral next cs := by
  rw [readLiteral, h]
  exact Option.map_id'

/-- An octal escape of three digits is over, whatever follows. -/
theorem readLiteral_octal_three {value : Nat} (h : value < 256) (cs : List Char) :
    readLiteral (.octal value 3) cs = (readLiteral .text cs).map (precede (UInt8.ofNat value)) := by
  cases cs with
  | nil => rfl
  | cons c cs =>
    have hflush : (LiteralState.octal value 3).step c = LiteralState.flush value c := by
      simp only [LiteralState.step, Nat.lt_irrefl, if_false]
      split <;> rfl
    rw [readLiteral, readLiteral, hflush, LiteralState.flush, byte?, if_pos h, LiteralState.step]
    cases LiteralState.textStep c with
    | none => rfl
    | some r =>
      obtain ⟨bytes, _ | next⟩ := r
      · rfl
      · change Option.map _ (readLiteral next cs) = Option.map _ (Option.map _ (readLiteral next cs))
        rw [Option.map_map]
        rfl

theorem step_backslash : LiteralState.text.step '\\' = some ([], some .backslash) :=
  rfl

/-- Three octal digits after a backslash are read as the byte with that value. -/
theorem readLiteral_octalEscape {a b c : Nat} (ha : a < 4) (hb : b < 8) (hc : c < 8) (cs : List Char) :
    readLiteral .text ('\\' :: digit a :: digit b :: digit c :: cs) =
      (readLiteral .text cs).map (precede (UInt8.ofNat (8 * (8 * a + b) + c))) := by
  have ha8 : a < 8 := by omega
  have hfirst : LiteralState.backslash.step (digit a) = some ([], some (.octal a 1)) := by
    simp only [LiteralState.step, octalDigit?_digit ha8, simpleEscapeByte?_digit ha8]
  have hnext {value digits n : Nat} (hn : n < 8) (hdigits : digits < 3) :
      (LiteralState.octal value digits).step (digit n) =
        some ([], some (.octal (8 * value + n) (digits + 1))) := by
    simp only [LiteralState.step, octalDigit?_digit hn, if_pos hdigits]
  rw [readLiteral_cons_nothing step_backslash, readLiteral_cons_nothing hfirst,
    readLiteral_cons_nothing (hnext hb (by decide)), readLiteral_cons_nothing (hnext hc (by decide))]
  exact readLiteral_octal_three (by omega) cs

/-- A mark after a backslash. -/
theorem readLiteral_simpleEscape (h : simpleEscapeByte? c = some b) (cs : List Char) :
    readLiteral .text ('\\' :: c :: cs) = (readLiteral .text cs).map (precede b) := by
  rw [readLiteral_cons_nothing step_backslash]
  exact readLiteral_cons_byte (by simp only [LiteralState.step, h]) cs

/-- What can be decided of the bytes one by one holds of all of them. They are counted in two digits, which keeps the
decision shallow. -/
theorem forall_byte {P : UInt8 → Prop} (h : ∀ i < 16, ∀ j < 16, P (UInt8.ofNat (16 * i + j))) (b : UInt8) : P b := by
  have hlt := b.toNat_lt
  have hb := h (b.toNat / 16) (by omega) (b.toNat % 16) (by omega)
  rwa [Nat.div_add_mod, UInt8.ofNat_toNat] at hb

theorem toNat_ofNat_byte : ∀ b : UInt8, (Char.ofNat b.toNat).toNat = b.toNat :=
  forall_byte (by decide +kernel)

/-- A character that stands for itself. -/
theorem textStep_plain (hquote : b ≠ 0x22) (hbackslash : b ≠ 0x5c) (hplain : 0x20 ≤ b ∧ b ≤ 0x7e) :
    LiteralState.textStep (Char.ofNat b.toNat) = some ([b], some .text) := by
  have hne {c : Char} {b' : UInt8} (hb : b ≠ b') (hc : c.toNat = b'.toNat) : Char.ofNat b.toNat ≠ c := by
    rintro rfl
    rw [toNat_ofNat_byte] at hc
    exact hb (UInt8.toNat_inj.1 hc)
  have hrange : (0x20 ≤ b.toNat && b.toNat ≤ 0x7e) = true := by
    simpa [UInt8.le_iff_toNat_le] using hplain
  rw [LiteralState.textStep, if_neg (hne hquote rfl), if_neg (hne hbackslash rfl), toNat_ofNat_byte, if_pos hrange,
    UInt8.ofNat_toNat]

/-- The escape of a byte is read as that byte, whatever follows it. -/
theorem readLiteral_cStringByte (b : UInt8) (cs : List Char) :
    readLiteral .text (cStringByte b ++ cs) = (readLiteral .text cs).map (precede b) := by
  unfold cStringByte
  split_ifs with hquote hbackslash hquestion hnewline htab hplain
  · subst hquote; exact readLiteral_simpleEscape rfl cs
  · subst hbackslash; exact readLiteral_simpleEscape rfl cs
  · subst hquestion; exact readLiteral_simpleEscape rfl cs
  · subst hnewline; exact readLiteral_simpleEscape rfl cs
  · subst htab; exact readLiteral_simpleEscape rfl cs
  · rw [Bool.and_eq_true, decide_eq_true_iff, decide_eq_true_iff] at hplain
    have hstep : LiteralState.text.step (Char.ofNat b.toNat) = some ([b], some .text) :=
      textStep_plain hquote hbackslash hplain
    exact readLiteral_cons_byte hstep cs
  · have hlt : b.toNat < 256 := b.toNat_lt
    have hvalue : 8 * (8 * (b.toNat / 64) + b.toNat / 8 % 8) + b.toNat % 8 = b.toNat := by omega
    have hread := readLiteral_octalEscape (a := b.toNat / 64) (b := b.toNat / 8 % 8) (c := b.toNat % 8)
      (by omega) (by omega) (by omega) cs
    rwa [hvalue, UInt8.ofNat_toNat] at hread

/-! ### The literal of a string -/

theorem readLiteral_flatMap (bytes : List UInt8) (rest : List Char) :
    readLiteral .text (bytes.flatMap cStringByte ++ '"' :: rest) = some (bytes, rest) := by
  induction bytes with
  | nil => rfl
  | cons b bytes ih =>
    rw [List.flatMap_cons, List.append_assoc, readLiteral_cStringByte, ih]
    rfl

/-- The literal of a string is read as the bytes of its encoding, up to its closing quote. -/
theorem readString_cString (s : String) (rest : List Char) :
    readString ('"' :: ((cString s).toList ++ '"' :: rest)) = some (utf8Bytes s, rest) := by
  rw [readString, cString, String.toList_ofList]
  exact readLiteral_flatMap (utf8Bytes s) rest

theorem cStringByte_printable :
    ∀ b : UInt8, (cStringByte b).all (fun c => 0x20 ≤ c.toNat && c.toNat ≤ 0x7e) = true :=
  forall_byte (by decide +kernel)

/-- The characters of a literal are those that can be printed. -/
theorem cString_printable (s : String) : ∀ c ∈ (cString s).toList, 0x20 ≤ c.toNat ∧ c.toNat ≤ 0x7e := by
  intro c hc
  rw [cString, String.toList_ofList] at hc
  obtain ⟨b, -, hc⟩ := List.mem_flatMap.1 hc
  simpa using List.all_eq_true.1 (cStringByte_printable b) c hc

/-- The escape of a byte does not begin with a question mark, and only its last character can be one. -/
theorem cStringByte_question : ∀ b : UInt8, ((cStringByte b).head?.any (· != '?') ∧ '?' ∉ (cStringByte b).dropLast) :=
  forall_byte (by decide +kernel)

/-- Before a text without a question mark at its front, characters that are no question marks but perhaps for the last
one stay as they are. -/
theorem replaceTrigraphs_append {l : List Char} (hl : '?' ∉ l.dropLast) (hcs : cs.head? ≠ some '?') :
    replaceTrigraphs (l ++ cs) = l ++ replaceTrigraphs cs := by
  induction l with
  | nil => rfl
  | cons c l ih =>
    cases l with
    | nil => exact replaceTrigraphs_cons fun _ => hcs
    | cons c' l =>
      rw [List.dropLast_cons_cons, List.mem_cons, not_or] at hl
      rw [List.cons_append, replaceTrigraphs_cons fun hc => absurd hc.symm hl.1, ih hl.2]
      rfl

theorem replaceTrigraphs_flatMap (bytes : List UInt8) (hcs : cs.head? ≠ some '?') :
    replaceTrigraphs (bytes.flatMap cStringByte ++ cs) = bytes.flatMap cStringByte ++ replaceTrigraphs cs ∧
      (bytes.flatMap cStringByte ++ cs).head? ≠ some '?' := by
  induction bytes with
  | nil => exact ⟨rfl, hcs⟩
  | cons b bytes ih =>
    obtain ⟨hhead, hlast⟩ := cStringByte_question b
    rw [List.flatMap_cons, List.append_assoc, replaceTrigraphs_append hlast ih.2, ih.1, List.append_assoc]
    refine ⟨rfl, ?_⟩
    cases hb : cStringByte b with
    | nil => rw [hb] at hhead; cases hhead
    | cons c l =>
      rw [hb] at hhead
      simpa using hhead

/-- There is no trigraph in a literal, nor does one begin or end in it. -/
theorem replaceTrigraphs_cString (s : String) (rest : List Char) :
    replaceTrigraphs ('"' :: ((cString s).toList ++ '"' :: rest)) =
      '"' :: ((cString s).toList ++ '"' :: replaceTrigraphs rest) := by
  have hquote (cs : List Char) : replaceTrigraphs ('"' :: cs) = '"' :: replaceTrigraphs cs :=
    replaceTrigraphs_cons nofun
  rw [hquote, cString, String.toList_ofList, (replaceTrigraphs_flatMap _ (by simp)).1, hquote]

end CBackend.C
