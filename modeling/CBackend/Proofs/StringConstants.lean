import CBackend.Lowering.Constants
import CBackend.Proofs.Registration
import CBackend.Proofs.Strings.Interning
import CBackend.Proofs.Strings.Literals

/-!
# String constants

A string constant is written as a C literal from which its bytes are read back, whatever follows the literal. In one
draft, equal strings share a number, and each number has one definition. A constant of string type is a pair of
pointers, to the first of the bytes that the literal is read as and past the last one.

## Main definitions

* `C.stringLiteral` : the literal of a string.
* `C.ReadsBack` : a literal is one token from which the bytes of the string are read back.
* `C.Expr.strPair` : a constant of string type, given the number of its bytes.

## Main results

* `Ensures.strExpr` : how a constant of string type is written.
* `string_constants_read_back` : string constants are read back, shared and measured.
-/

namespace CBackend

open IR
open C (CType TypeTable)
open Text (cString utf8Bytes)

namespace C

/-- The literal of a string, with its quotes. -/
def stringLiteral (s : String) : List Char :=
  '"' :: ((cString s).toList ++ ['"'])

/-- The literal of a string consists of printable characters. No trigraph is found in it, whatever follows, and it is
read as the bytes of the string up to its last quote. -/
structure ReadsBack (s : String) : Prop where
  printable : ∀ c ∈ stringLiteral s, 0x20 ≤ c.toNat ∧ c.toNat ≤ 0x7e
  trigraphs : ∀ rest, replaceTrigraphs (stringLiteral s ++ rest) = stringLiteral s ++ replaceTrigraphs rest
  bytes : ∀ rest, readString (stringLiteral s ++ rest) = some (utf8Bytes s, rest)

theorem stringLiteral_append (s : String) (rest : List Char) :
    stringLiteral s ++ rest = '"' :: ((cString s).toList ++ '"' :: rest) := by
  simp [stringLiteral]

theorem readsBack (s : String) : ReadsBack s where
  printable c hc := by
    obtain rfl | hc := List.mem_cons.1 hc
    · decide
    · obtain hc | hc := List.mem_append.1 hc
      · exact cString_printable s c hc
      · rw [List.mem_singleton.1 hc]
        decide
  trigraphs rest := by simpa only [stringLiteral_append] using replaceTrigraphs_cString s rest
  bytes rest := by simpa only [stringLiteral_append] using readString_cString s rest

theorem Name.spelling_string (n : Nat) : (string n).spelling = "s_" ++ toString n :=
  rfl

/-- The definition of a string constant gives its name and ends with its literal. -/
theorem StaticVariable.print_string (types : TypeTable) (n : Nat) (byteType : CType) (s : String) :
    ((string n byteType s).print types).toList =
      ("static " ++ types.render byteType ++ " const s_" ++ toString n ++ "[] = ").toList ++
        stringLiteral s ++ [';', '\n'] := by
  simp [print, Name.spelling_string, stringLiteral]

/-- A constant of string type: pointers to the storage of a string constant and past its bytes. -/
def Expr.strPair (ty : Option CType) (n length : Nat) : Expr :=
  .braces ty .constant [.name (.string n), .binary "+" (.name (.string n)) (.nat length)]

/-- The text of a constant of string type, after its type if it is a compound literal. -/
theorem Expr.print_strPair (types : TypeTable) (ty : Option CType) (n length : Nat) :
    (strPair ty n length).print types = (ty.elim "" fun ty => "(" ++ types.render ty ++ ")") ++
      "\x7b s_" ++ toString n ++ ", s_" ++ toString n ++ " + " ++ toString length ++ ", \x7d" := by
  have hlength : (nat length).print types = toString length := rfl
  rw [← String.toList_inj]
  cases ty <;> simp [strPair, print, printEach, bracesText, Name.spelling_string, hlength]

end C

variable {d d₀ d₁ : Draft} {options : Options} {s : String} {n : Nat}

/-! ### New drafts -/

/-- A new draft has no string constants. -/
theorem Draft.internedInOrder_of_new (h : Draft.new options = .ok d) : d.InternedInOrder := by
  cases Draft.eq_registered h
  exact ⟨List.nodup_nil, rfl⟩

/-! ### Constants of string type -/

theorem length_toList_loop (bytes : ByteArray) (i : Nat) (read : List UInt8) :
    (ByteArray.toList.loop bytes i read).length = read.length + (bytes.size - i) := by
  fun_induction ByteArray.toList.loop bytes i read with
  | case1 i read hlt ih => rw [ih, List.length_cons]; omega
  | case2 i read hend => rw [List.length_reverse]; omega

theorem length_utf8Bytes (s : String) : (utf8Bytes s).length = s.utf8ByteSize := by
  rw [utf8Bytes, ByteArray.toList, length_toList_loop]
  simp

/-- A constant of string type is made of a request for the string and the number of its bytes. -/
theorem Ensures.strExpr {m : Module} {compound : Bool} :
    Ensures d (Lowering.strExpr m compound s) fun e d' => ∃ n ty,
      e = C.Expr.strPair ty n (utf8Bytes s).length ∧ ty.isSome = compound ∧ Interning d [(s, n)] d' := by
  rw [length_utf8Bytes]
  refine .bind (Q := fun n d₁ => Interning d [(s, n)] d₁) (fun n d₁ h => .request h .nil) fun n d₁ h => ?_
  unfold Lowering.braced
  cases compound with
  | true =>
    have hty : Keeps SameStrings (Lowering.valueType m .str) := .lowerType
    refine .bind (hty d₁) fun ty d₂ hsame => .pure ⟨n, some ty, rfl, rfl, ?_⟩
    exact h.trans (.of_same hsame)
  | false => exact .pure ⟨n, none, rfl, rfl, h⟩

/-- String constants are read back from their literals, with which their definitions end. Requests in one draft get the
same number exactly if they are for the same string, and each number has one definition. A constant of string type is
written with the number of its string and the number of bytes that its literal is read as. -/
theorem string_constants_read_back :
    (∀ s, C.ReadsBack s ∧ ∀ types n byteType, ((C.StaticVariable.string n byteType s).print types).toList =
      ("static " ++ types.render byteType ++ " const s_" ++ toString n ++ "[] = ").toList ++
        C.stringLiteral s ++ [';', '\n']) ∧
    ∀ options d₀ requests d, Draft.new options = .ok d₀ → Interning d₀ requests d →
      (∀ s n s' n', (s, n) ∈ requests → (s', n') ∈ requests → (n = n' ↔ s = s')) ∧
      (∀ s n, (s, n) ∈ requests → d.DefinesString n s) ∧
      ∀ m compound s e d₁, Lowering.strExpr m compound s d = .ok (e, d₁) →
        ∃ n, ∃ ty : Option CType, ty.isSome = compound ∧
        (∀ types, e.print types = (ty.elim "" fun ty => "(" ++ types.render ty ++ ")") ++
          "\x7b s_" ++ toString n ++ ", s_" ++ toString n ++ " + " ++ toString (utf8Bytes s).length ++ ", \x7d") ∧
        Interning d₀ (requests ++ [(s, n)]) d₁ ∧
        ∀ later d', Interning d₁ later d' → d'.DefinesString n s := by
  refine ⟨fun s => ⟨C.readsBack s, fun types n byteType => C.StaticVariable.print_string types n byteType s⟩,
    fun options d₀ requests d hnew h => ?_⟩
  have hd₀ := Draft.internedInOrder_of_new hnew
  refine ⟨fun s n s' n' hs hs' => h.number_eq_iff hd₀ hs hs', fun s n hs => h.definesString hd₀ hs,
    fun m compound s e d₁ hrun => ?_⟩
  obtain ⟨n, ty, he, hty, hrequest⟩ := Ensures.strExpr e d₁ hrun
  have hrequests := h.trans hrequest
  refine ⟨n, ty, hty, fun types => he ▸ C.Expr.print_strPair types ty n _, hrequests, fun later d' hlater => ?_⟩
  exact (hrequests.trans hlater).definesString hd₀ (by simp)

/-- Three requests and a constant for two strings, of which the one has a character of two bytes and ends with a question
mark. -/
theorem string_constants_read_back_repeated : ∃ d₀ d n n' e d₁, Draft.new {} = .ok d₀ ∧
    Interning d₀ [("é?", n), ("x", n'), ("é?", n)] d ∧ n ≠ n' ∧ d.DefinesString n "é?" ∧ d.DefinesString n' "x" ∧
    Lowering.strExpr {} false "é?" d = .ok (e, d₁) ∧ d₁.DefinesString n "é?" ∧
    ∀ types, e.print types = "\x7b s_" ++ toString n ++ ", s_" ++ toString n ++ " + " ++ toString 3 ++ ", \x7d" := by
  let run : Emit C.Expr := do
    let _ ← Emit.internString "é?"
    let _ ← Emit.internString "x"
    let _ ← Emit.internString "é?"
    Lowering.strExpr {} false "é?"
  have hrun : (Draft.new {} >>= run).toOption.isSome = true := by decide +kernel
  cases h : Draft.new {} >>= run with
  | error e => rw [h] at hrun; cases hrun
  | ok result =>
    obtain ⟨d₀, hnew, h⟩ := exists_of_bind_eq_ok h
    obtain ⟨⟨n₁, d₁⟩, h₁, h⟩ := exists_of_bind_eq_ok h
    obtain ⟨⟨n₂, d₂⟩, h₂, h⟩ := exists_of_bind_eq_ok h
    obtain ⟨⟨n₃, d⟩, h₃, h⟩ := exists_of_bind_eq_ok h
    have hinterning : Interning d₀ [("é?", n₁), ("x", n₂), ("é?", n₃)] d := .request h₁ (.request h₂ (.request h₃ .nil))
    obtain ⟨hnumbers, hdefines, hconstants⟩ := string_constants_read_back.2 _ _ _ _ hnew hinterning
    obtain ⟨n₄, ty, hty, hprint, hinterning', hlater⟩ := hconstants _ _ _ _ _ h
    have hall := (string_constants_read_back.2 _ _ _ _ hnew hinterning').1
    obtain rfl : n₁ = n₃ := (hnumbers "é?" n₁ "é?" n₃ (by simp) (by simp)).2 rfl
    obtain rfl : n₁ = n₄ := (hall "é?" n₁ "é?" n₄ (by simp) (by simp)).2 rfl
    have hne : n₁ ≠ n₂ := fun heq => absurd ((hnumbers "é?" n₁ "x" n₂ (by simp) (by simp)).1 heq) (by decide)
    have hlength : (utf8Bytes "é?").length = 3 := by rw [length_utf8Bytes]; rfl
    refine ⟨d₀, d, n₁, n₂, result.1, result.2, hnew, hinterning, hne, hdefines _ _ (by simp), hdefines _ _ (by simp), h,
      hlater [] _ .nil, fun types => ?_⟩
    rw [hprint, hlength, Option.not_isSome_iff_eq_none.1 (ne_true_of_eq_false hty), Option.elim_none,
      String.empty_append]

end CBackend
