import CBackend.Proofs.Lowering.Types

/-!
# Interned strings

The string constants of a draft are numbered in the order in which they are first asked for, and each has one
definition among the variables with static storage. A run is seen here as a list of requests with the numbers they were
answered with. Between them other work may be done on the draft, as long as it leaves the string constants alone.
-/

namespace CBackend

open IR
open C (CType)

variable {d d₁ d' : Draft} {s : String} {n : Nat}

/-- The number and text of a string constant. -/
def C.StaticVariable.string? : C.StaticVariable → Option (Nat × String)
  | string n _ s => some (n, s)
  | global .. => none

/-- The string constants that are defined, with their numbers, in the order of their definitions. -/
def Draft.stringDefinitions (d : Draft) : List (Nat × String) :=
  d.unit.statics.toList.filterMap C.StaticVariable.string?

/-- Among the variables with static storage there is one string constant with the number, and it holds the string. -/
def Draft.DefinesString (d : Draft) (n : Nat) (s : String) : Prop :=
  ∃ before byteType after, d.unit.statics.toList = before ++ .string n byteType s :: after ∧
    ∀ v ∈ before ++ after, ∀ s', v.string? ≠ some (n, s')

/-- The string constants and their definitions are left alone. -/
structure SameStrings (d d' : Draft) : Prop where
  strings : d'.strings = d.strings
  definitions : d'.stringDefinitions = d.stringDefinitions

namespace SameStrings

instance : Std.Refl SameStrings :=
  ⟨fun _ => ⟨rfl, rfl⟩⟩

instance : IsTrans Draft SameStrings :=
  ⟨fun _ _ _ h h' => ⟨h'.strings.trans h.strings, h'.definitions.trans h.definitions⟩⟩

instance : AllowsTypes SameStrings :=
  ⟨fun _ _ _ _ _ _ _ => ⟨rfl, rfl⟩⟩

end SameStrings

/-- A run from one draft to another, with its requests for string constants and the numbers they got. -/
inductive Interning : Draft → List (String × Nat) → Draft → Prop
  | nil {d : Draft} : Interning d [] d
  | request {d d₁ d' : Draft} {s : String} {n : Nat} {requests : List (String × Nat)}
      (head : Emit.internString s d = .ok (n, d₁)) (tail : Interning d₁ requests d') :
      Interning d ((s, n) :: requests) d'
  | other {d d₁ d' : Draft} {requests : List (String × Nat)} (head : SameStrings d d₁)
      (tail : Interning d₁ requests d') : Interning d requests d'

namespace Interning

theorem of_same (h : SameStrings d d') : Interning d [] d' :=
  .other h .nil

theorem trans {requests requests' : List (String × Nat)} (h : Interning d requests d₁)
    (h' : Interning d₁ requests' d') : Interning d (requests ++ requests') d' := by
  induction h with
  | nil => exact h'
  | request head _ ih => exact .request head (ih h')
  | other head _ ih => exact .other head (ih h')

end Interning

/-- Something between two drafts may ask for string constants, and leaves them alone otherwise. -/
def Interns (d d' : Draft) : Prop :=
  ∃ requests, Interning d requests d'

namespace Interns

theorem of_same (h : SameStrings d d') : Interns d d' :=
  ⟨[], .of_same h⟩

theorem trans (h : Interns d d₁) (h' : Interns d₁ d') : Interns d d' := by
  obtain ⟨requests, h⟩ := h
  obtain ⟨requests', h'⟩ := h'
  exact ⟨requests ++ requests', h.trans h'⟩

end Interns

/-! ### One request -/

/-- A string that is found changes nothing. A new one gets the next number and a definition. -/
theorem Ensures.internString_cases :
    Ensures d (Emit.internString s) fun n d' =>
      (d' = d ∧ d.strings[n]? = some s) ∨
      (s ∉ d.strings ∧ n = d.strings.size ∧ d'.strings = d.strings.push s ∧
        d'.stringDefinitions = d.stringDefinitions ++ [(n, s)]) := by
  refine .get_bind ?_
  split
  · next n hn =>
    obtain ⟨hlt, heq, -⟩ := Array.findIdx?_eq_some_iff_getElem.1 hn
    exact .pure (.inl ⟨rfl, by rw [Array.getElem?_eq_getElem hlt, eq_of_beq heq]⟩)
  · next hnone =>
    have hnew : s ∉ d.strings := fun hs => by
      simpa using Array.findIdx?_eq_none_iff.1 hnone s hs
    refine .bind (Keeps.builtin (R := Eq) d) ?_
    rintro _ _ rfl
    refine .bind (.modify (Φ := fun _ d₂ => d₂ = _) rfl) ?_
    rintro _ _ rfl
    refine .bind (.modify (Φ := fun _ d₂ => d₂ = _) rfl) ?_
    rintro _ _ rfl
    refine .pure (.inr ⟨hnew, rfl, rfl, ?_⟩)
    simp [Draft.stringDefinitions, C.StaticVariable.string?]

/-! ### The order of the definitions -/

/-- The string constants are different from each other, and each of them is defined once, under its number. -/
structure Draft.InternedInOrder (d : Draft) : Prop where
  nodup : d.strings.toList.Nodup
  definitions : d.stringDefinitions = d.strings.toList.zipIdx.map Prod.swap

namespace Draft.InternedInOrder

theorem same (hd : d.InternedInOrder) (h : SameStrings d d') : d'.InternedInOrder :=
  ⟨h.strings ▸ hd.nodup, by rw [h.definitions, h.strings, hd.definitions]⟩

theorem internString (hd : d.InternedInOrder) :
    Ensures d (Emit.internString s) fun _ d' => d'.InternedInOrder := by
  refine .mono .internString_cases ?_
  rintro n d' (⟨rfl, -⟩ | ⟨hnew, rfl, hstrings, hdefinitions⟩)
  · exact hd
  · refine ⟨?_, ?_⟩
    · rw [hstrings, Array.toList_push, List.nodup_append]
      refine ⟨hd.nodup, by simp, fun s' hs' _ h => ?_⟩
      rw [List.mem_singleton.1 h]
      rintro rfl
      exact hnew (Array.mem_toList_iff.1 hs')
    · rw [hdefinitions, hstrings, hd.definitions]
      simp [List.zipIdx_append]

theorem nodup_numbers (hd : d.InternedInOrder) : (d.stringDefinitions.map Prod.fst).Nodup := by
  have hnumbers : d.stringDefinitions.map Prod.fst = List.range' 0 d.strings.toList.length := by
    rw [hd.definitions, List.map_map, ← List.zipIdx_map_snd]
    rfl
  rw [hnumbers]
  exact List.nodup_range'

theorem mem_definitions (hd : d.InternedInOrder) (h : d.strings[n]? = some s) :
    (n, s) ∈ d.stringDefinitions := by
  rw [hd.definitions]
  refine List.mem_map.2 ⟨(s, n), ?_, rfl⟩
  rwa [List.mem_zipIdx_iff_getElem?, Array.getElem?_toList]

/-- A string constant has one definition. -/
theorem definesString (hd : d.InternedInOrder) (h : d.strings[n]? = some s) :
    d.DefinesString n s := by
  obtain ⟨v, hv, hstring⟩ := List.mem_filterMap.1 (hd.mem_definitions h)
  obtain ⟨before, after, hsplit⟩ := List.append_of_mem hv
  cases v with
  | global => cases hstring
  | string _ byteType _ =>
    cases hstring
    refine ⟨before, byteType, after, hsplit, fun v hv s' hs' => ?_⟩
    have hself : (C.StaticVariable.string n byteType s).string? = some (n, s) := rfl
    have hnodup := hd.nodup_numbers
    rw [Draft.stringDefinitions, hsplit, List.filterMap_append, List.filterMap_cons_some hself,
      List.map_append, List.map_cons, List.perm_middle.nodup_iff, List.nodup_cons, ← List.map_append,
      ← List.filterMap_append] at hnodup
    exact hnodup.1 (List.mem_map.2 ⟨(n, s'), List.mem_filterMap.2 ⟨v, hv, hs'⟩, rfl⟩)

end Draft.InternedInOrder

/-! ### Runs -/

namespace Interning

variable {requests : List (String × Nat)}

theorem internedInOrder (h : Interning d requests d') (hd : d.InternedInOrder) : d'.InternedInOrder := by
  induction h with
  | nil => exact hd
  | request head _ ih => exact ih (hd.internString _ _ head)
  | other head _ ih => exact ih (hd.same head)

/-- A string constant keeps its number. -/
theorem getElem?_strings (h : Interning d requests d') (hn : d.strings[n]? = some s) :
    d'.strings[n]? = some s := by
  induction h with
  | nil => exact hn
  | request head _ ih =>
    refine ih ?_
    obtain ⟨rfl, -⟩ | ⟨-, -, hstrings, -⟩ := Ensures.internString_cases _ _ head
    · exact hn
    · have hlt : n < Array.size _ := (Array.getElem?_eq_some_iff.1 hn).1
      rw [hstrings, Array.getElem?_push_lt hlt]
      exact Array.getElem?_eq_getElem hlt ▸ hn
  | other head _ ih => exact ih (head.strings ▸ hn)

/-- The number of a request is that of its string. -/
theorem getElem?_of_mem (h : Interning d requests d') (hmem : (s, n) ∈ requests) :
    d'.strings[n]? = some s := by
  induction h with
  | nil => cases hmem
  | request head tail ih =>
    obtain heq | hmem := List.mem_cons.1 hmem
    · cases heq
      refine tail.getElem?_strings ?_
      obtain ⟨rfl, hn⟩ | ⟨-, rfl, hstrings, -⟩ := Ensures.internString_cases _ _ head
      · exact hn
      · rw [hstrings, Array.getElem?_push_size]
    · exact ih hmem
  | other _ _ ih => exact ih hmem

/-- Two requests get the same number exactly if they are for the same string. -/
theorem number_eq_iff (h : Interning d requests d') (hd : d.InternedInOrder) {s' : String} {n' : Nat}
    (hs : (s, n) ∈ requests) (hs' : (s', n') ∈ requests) : n = n' ↔ s = s' := by
  have hn := h.getElem?_of_mem hs
  have hn' := h.getElem?_of_mem hs'
  refine ⟨?_, ?_⟩
  · rintro rfl
    exact Option.some.inj (hn.symm.trans hn')
  · rintro rfl
    rw [← Array.getElem?_toList] at hn hn'
    exact (List.getElem?_inj (List.getElem?_eq_some_iff.1 hn).1 (h.internedInOrder hd).nodup).1 (hn.trans hn'.symm)

/-- The string of a request is defined under its number. -/
theorem definesString (h : Interning d requests d') (hd : d.InternedInOrder) (hs : (s, n) ∈ requests) :
    d'.DefinesString n s :=
  (h.internedInOrder hd).definesString (h.getElem?_of_mem hs)

end Interning

end CBackend
