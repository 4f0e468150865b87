import CBackend.Proofs.Reading.Tokens
import CBackend.Proofs.Types.Calls
import Mathlib.Data.List.Count

/-!
# The declarations of types

After any calls for types the draft has each of them under one name, lists each once where it has to be declared and
defined, and writes no name before its declaration.

## Main definitions

* `identifiers` : the identifiers and other words of a text.
* `TypesInStep` : what holds after calls for types.
* `replay` : calls that are made one after the other.

## Main results

* `declared_first` : the first occurrence of a type's name is in its declaration.
* `type_calls_keep_step` : the types, their names and the text stay in step.
-/

namespace CBackend

open IR
open C (CType Head StructShape ArrayShape FunctionShape)

variable {w : List Char} {head head' : Head} {u : C.CompilationUnit} {ty : CType} {log : TypeLog}

/-! ### Identifiers -/

/-- The pieces of a text between characters that no identifier has. -/
def identifiers (cs : List Char) : List (List Char) :=
  cs.splitOnP fun c => !C.isWordChar c

theorem identifiers_append_cons {a b : List Char} {c : Char} (hc : C.isWordChar c = false) :
    identifiers (a ++ c :: b) = identifiers a ++ identifiers b :=
  List.splitOnP_append_cons a b (by simp [hc])

theorem identifiers_of_all {cs : List Char} (h : cs.all C.isWordChar = true) : identifiers cs = [cs] :=
  List.splitOnP_eq_singleton fun c hc => by simp [List.all_eq_true.1 h c hc]

/-- A text in which a name does not occur. -/
def Lacks (name cs : List Char) : Prop :=
  name ∉ identifiers cs

namespace Lacks

variable {name a b : List Char} {c : Char}

theorem between (hc : C.isWordChar c = false) (ha : Lacks name a) (hb : Lacks name b) : Lacks name (a ++ c :: b) := by
  unfold Lacks
  rw [identifiers_append_cons hc, List.mem_append, not_or]
  exact ⟨ha, hb⟩

/-- A name of a type is none of the words that C has. -/
theorem keywords (hname : name = 't' :: '_' :: w) (h : ∀ word ∈ identifiers a, ¬ ['t', '_'] <+: word) : Lacks name a :=
  fun hmem => h name hmem ⟨w, hname.symm⟩

theorem nil (hname : name = 't' :: '_' :: w) : Lacks name [] :=
  keywords hname (by decide)

theorem levels (hname : name = 't' :: '_' :: w) (ha : Lacks name a) (ls : List C.PointerLevel) :
    Lacks name (a ++ (String.join (ls.map C.TypeTable.levelSuffix)).toList) := by
  induction ls generalizing a with
  | nil => simpa using ha
  | cons l ls ih =>
    have hrest := ih (nil hname)
    rw [List.map_cons, String.join_cons, String.toList_append]
    rw [List.nil_append] at hrest
    cases l with
    | plain => exact .between (by decide) ha hrest
    | readOnly =>
      have hconst : Lacks name "const".toList := keywords hname (by decide)
      exact .between (by decide) ha (.between (a := "const".toList) (by decide) hconst
        (.between (a := []) (by decide) (nil hname) hrest))

/-- Lines are apart from each other. -/
theorem lines (hname : name = 't' :: '_' :: w) {ls : List String}
    (h : ∀ l ∈ ls, l = "" ∨ ∃ cs, l.toList = cs ++ ['\n'] ∧ Lacks name cs) : Lacks name (String.join ls).toList := by
  induction ls with
  | nil => exact nil hname
  | cons l ls ih =>
    have hrest := ih fun l' hl' => h l' (List.mem_cons_of_mem _ hl')
    rw [String.join_cons, String.toList_append]
    rcases h l List.mem_cons_self with rfl | ⟨cs, hcs, hlacks⟩
    · simpa using hrest
    · rw [hcs, List.append_assoc]
      exact .between (by decide) hlacks hrest

end Lacks

/-! ### The names of types -/

variable {d d' : Draft}

/-- A type other than a scalar has a name of the form `t_…`, which is one word. -/
theorem Draft.Named.toList_name (hd : d.Named) {name : String} (h : d.unit.types.headName? head = some name)
    (hscalar : ∀ s, head ≠ .scalar s) :
    (∃ w, name.toList = 't' :: '_' :: w) ∧ name.toList.all C.isWordChar = true := by
  cases hhead : head.isShape with
  | true =>
    obtain ⟨k, -, rfl⟩ := hd.numbered head name hhead h
    rw [toList_typeName]
    refine ⟨⟨_, rfl⟩, ?_⟩
    have hdigits : (Nat.toDigits 10 k).all C.isWordChar = true := List.all_eq_true.2 fun c hc => by
      simp [C.isWordChar, Nat.isDigit_of_mem_toDigits (by decide) (by decide) hc]
    rw [List.all_cons, List.all_cons, hdigits]
    decide
  | false =>
    obtain ⟨s, rfl⟩ | ⟨kind, rfl⟩ := hd.fixed hhead h
    · have heq := hd.inj head (.scalar s) _ h rfl
      exact absurd heq (hscalar s)
    · cases kind <;> exact ⟨⟨_, rfl⟩, by decide⟩

theorem toList_forwardText : (u.forwardText head).toList =
    "typedef struct".toList ++ ' ' :: ((u.headName head).toList ++ ' ' :: ((u.headName head).toList ++ ';' :: [])) ++
      ['\n'] := by
  have hstart : "typedef struct ".toList = "typedef struct".toList ++ [' '] := by decide
  have hend : ";\n".toList = [';', '\n'] := by decide
  have hblank : " ".toList = [' '] := by decide
  unfold C.CompilationUnit.forwardText
  simp only [String.toList_append, hstart, hend, hblank, List.append_assoc, List.cons_append, List.nil_append]

section

variable {head : Head} {name : String} (hd : d.Named) (hname : d.unit.types.headName? head = some name)
  (hscalar : ∀ s, head ≠ .scalar s)

include hd hname hscalar

/-- The name of a type does not occur in that of another one. -/
theorem lacks_headName (hne : head' ≠ head) : Lacks name.toList (d.unit.headName head').toList := by
  obtain ⟨⟨w, hw⟩, -⟩ := hd.toList_name hname hscalar
  unfold C.CompilationUnit.headName
  cases hname' : d.unit.types.headName? head' with
  | none => exact .nil hw
  | some name' =>
    cases head' with
    | scalar s =>
      cases hname'
      refine .keywords hw ?_
      cases s <;> decide
    | struct | array | function | typedef =>
      have hword := (hd.toList_name hname' (by rintro _ ⟨⟩)).2
      unfold Lacks
      rw [Option.getD_some, identifiers_of_all hword, List.mem_singleton, String.toList_inj]
      rintro rfl
      exact hne (hd.inj _ _ _ hname' hname)

theorem lacks_render (hne : ty.head ≠ head) : Lacks name.toList (d.unit.types.render ty).toList := by
  obtain ⟨⟨w, hw⟩, -⟩ := hd.toList_name hname hscalar
  have hhead := lacks_headName hd hname hscalar hne
  unfold C.TypeTable.render C.TypeTable.render?
  unfold C.CompilationUnit.headName at hhead
  cases hty : d.unit.types.headName? ty.head with
  | none => exact .nil hw
  | some name' =>
    rw [hty] at hhead
    rw [Option.map_some, Option.getD_some, String.toList_append]
    exact .levels hw hhead _

theorem lacks_paramList {tys : List CType} (hne : ∀ ty ∈ tys, ty.head ≠ head) :
    Lacks name.toList (C.paramList (tys.map d.unit.types.render)).toList := by
  obtain ⟨⟨w, hw⟩, -⟩ := hd.toList_name hname hscalar
  have hitems {ty : CType} {tys : List CType} (hty : ty.head ≠ head) (hne : ∀ ty ∈ tys, ty.head ≠ head) :
      Lacks name.toList (", ".intercalate ((ty :: tys).map d.unit.types.render)).toList := by
    induction tys generalizing ty with
    | nil => simpa using lacks_render hd hname hscalar hty
    | cons ty' tys ih =>
      have hrest := ih (hne ty' List.mem_cons_self) fun ty hmem => hne ty (List.mem_cons_of_mem _ hmem)
      rw [String.toList_intercalate] at hrest ⊢
      rw [List.map_cons, List.map_cons, List.map_cons, List.map_cons, List.intercalate_cons_cons, List.append_assoc]
      exact .between (by decide) (lacks_render hd hname hscalar hty)
        (.between (a := []) (by decide) (.nil hw) hrest)
  cases tys with
  | nil =>
    have hvoid : Lacks name.toList "void".toList := .keywords hw (by decide)
    exact hvoid
  | cons ty tys => exact hitems (hne ty List.mem_cons_self) fun ty hmem => hne ty (List.mem_cons_of_mem _ hmem)

/-- The forward declaration of another type. -/
theorem lacks_forwardText (hne : head' ≠ head) :
    ∃ cs, (d.unit.forwardText head').toList = cs ++ ['\n'] ∧ Lacks name.toList cs := by
  obtain ⟨⟨w, hw⟩, -⟩ := hd.toList_name hname hscalar
  have hhead := lacks_headName hd hname hscalar hne
  have hwords : Lacks name.toList "typedef struct".toList := .keywords hw (by decide)
  refine ⟨_, toList_forwardText, ?_⟩
  exact .between (by decide) hwords (.between (by decide) hhead (.between (by decide) hhead (.nil hw)))

end

/-- The text of a function's typedef around the name. -/
theorem toList_typedefText_function {n : Nat} {shape : FunctionShape} (h : u.types.functions.get? n = some shape) :
    (u.typedefText (.function n)).toList =
      ("typedef".toList ++ ' ' :: ((u.types.render shape.result).toList ++ ' ' :: ([] ++ '(' :: []))) ++
        '*' :: ((u.headName (.function n)).toList ++
          ')' :: ([] ++ '(' :: ((C.paramList (shape.params.map u.types.render)).toList ++
            ')' :: ([] ++ ';' :: [])))) ++ ['\n'] := by
  unfold C.CompilationUnit.typedefText
  simp [h]

/-- The text of a scalar's typedef around the name. -/
theorem toList_typedefText_typedef {n : Nat} (h : u.types.typedefs.get? n = some ty) :
    (u.typedefText (.typedef n)).toList =
      ("typedef".toList ++ ' ' :: (u.types.render ty).toList) ++
        ' ' :: ((u.headName (.typedef n)).toList ++ ';' :: []) ++ ['\n'] := by
  unfold C.CompilationUnit.typedefText
  simp [h]

section

variable {head : Head} {name : String} (hd : d.Named) (hlisted : d.Listed)
  (hname : d.unit.types.headName? head = some name) (hscalar : ∀ s, head ≠ .scalar s)

include hd hlisted hname hscalar

/-- The typedef of another type that comes no later. -/
theorem lacks_typedefText (hne : head' ≠ head) (horder : ∀ n k, head = .typedef n → head' = .typedef k → k < n)
    (horder' : ∀ k, head' = .function k → ∃ n, head = .function n ∧ k < n) :
    d.unit.typedefText head' = "" ∨
      ∃ cs, (d.unit.typedefText head').toList = cs ++ ['\n'] ∧ Lacks name.toList cs := by
  obtain ⟨⟨w, hw⟩, -⟩ := hd.toList_name hname hscalar
  have hhead := lacks_headName hd hname hscalar hne
  have hword : Lacks name.toList "typedef".toList := .keywords hw (by decide)
  have hnil : Lacks name.toList [] := .nil hw
  cases head' with
  | scalar | struct | array => exact .inl rfl
  | typedef k =>
    cases hk : d.unit.types.typedefs.get? k with
    | none =>
      left
      unfold C.CompilationUnit.typedefText
      simp only [hk]
    | some ty =>
      refine .inr ⟨_, toList_typedefText_typedef hk, ?_⟩
      have hty : ty.head ≠ head := by
        rcases hlisted.aliases k ty hk with ⟨s, hs⟩ | ⟨j, hj, hty⟩
        · exact hs ▸ (hscalar s).symm
        · rintro heq
          exact absurd (horder j k (heq.symm.trans hty) rfl) (by omega)
      exact .between (by decide) (.between (by decide) hword (lacks_render hd hname hscalar hty))
        (.between (by decide) hhead hnil)
  | function k =>
    cases hk : d.unit.types.functions.get? k with
    | none =>
      left
      unfold C.CompilationUnit.typedefText
      simp only [hk]
    | some shape =>
      refine .inr ⟨_, toList_typedefText_function hk, ?_⟩
      obtain ⟨n, hn, hlt⟩ := horder' k rfl
      have htys : ∀ ty ∈ shape.result :: shape.params, ty.head ≠ head := by
        intro ty hty heq
        exact absurd (hlisted.earlier k shape hk ty hty n (heq.trans hn)) (by omega)
      have hresult := lacks_render hd hname hscalar (htys _ List.mem_cons_self)
      have hparams := lacks_paramList hd hname hscalar fun ty hty => htys ty (List.mem_cons_of_mem _ hty)
      have hend : Lacks name.toList ([] ++ ';' :: []) := .between (by decide) hnil hnil
      exact .between (by decide)
        (.between (by decide) hword (.between (by decide) hresult (.between (by decide) hnil hnil)))
        (.between (by decide) hhead (.between (by decide) hnil (.between (by decide) hparams hend)))

/-- The name of a typedef occurs once in it. -/
theorem count_identifiers_typedefText (hhead : head ∈ d.unit.typedefs.toList)
    (hsize : d.unit.types.typedefs.shapes.size = Builtin.all.length) :
    (identifiers (d.unit.typedefText head).toList).count name.toList = 1 := by
  obtain ⟨⟨w, hw⟩, hword⟩ := hd.toList_name hname hscalar
  have hkeyword : Lacks name.toList "typedef".toList := .keywords hw (by decide)
  have hnil : Lacks name.toList [] := .nil hw
  have hheadName : (d.unit.headName head).toList = name.toList := by
    unfold C.CompilationUnit.headName
    rw [hname]
    rfl
  have hone {a b : List Char} {c c' : Char} (ha : Lacks name.toList a) (hb : Lacks name.toList b)
      (hc : C.isWordChar c = false) (hc' : C.isWordChar c' = false) :
      (identifiers (a ++ c :: (name.toList ++ c' :: b) ++ ['\n'])).count name.toList = 1 := by
    have hb' : Lacks name.toList (b ++ ['\n']) := .between (by decide) hb hnil
    rw [List.append_assoc, List.cons_append, List.append_assoc, List.cons_append, identifiers_append_cons hc,
      identifiers_append_cons hc', identifiers_of_all hword, List.count_append, List.count_append,
      List.count_eq_zero_of_not_mem ha, List.count_eq_zero_of_not_mem hb', List.count_singleton_self]
  rw [hlisted.typedefs, List.mem_append, List.mem_map, List.mem_map] at hhead
  rcases hhead with ⟨n, hn, rfl⟩ | ⟨n, hn, rfl⟩
  · obtain ⟨ty, hty⟩ : ∃ ty, d.unit.types.typedefs.get? n = some ty :=
      ⟨_, Array.getElem?_eq_getElem (hsize ▸ List.mem_range.1 hn)⟩
    have hne : ty.head ≠ .typedef n := by
      rcases hlisted.aliases n ty hty with ⟨s, hs⟩ | ⟨k, hk, hhead⟩
      · rw [hs]
        exact nofun
      · rw [hhead]
        rintro ⟨⟩
        exact absurd hk (Nat.lt_irrefl _)
    rw [toList_typedefText_typedef hty, hheadName]
    exact hone (.between (by decide) hkeyword (lacks_render hd hname hscalar hne)) hnil (by decide) (by decide)
  · obtain ⟨shape, hshape⟩ : ∃ shape, d.unit.types.functions.get? n = some shape :=
      ⟨_, Array.getElem?_eq_getElem (List.mem_range.1 hn)⟩
    have hne : ∀ ty ∈ shape.result :: shape.params, ty.head ≠ .function n := fun ty hty heq =>
      absurd (hlisted.earlier n shape hshape ty hty n heq) (Nat.lt_irrefl _)
    have hresult := lacks_render hd hname hscalar (hne _ List.mem_cons_self)
    have hparams := lacks_paramList hd hname hscalar fun ty hty => hne ty (List.mem_cons_of_mem _ hty)
    have hend : Lacks name.toList ([] ++ ';' :: []) := .between (by decide) hnil hnil
    rw [toList_typedefText_function hshape, hheadName]
    exact hone (.between (by decide) hkeyword (.between (by decide) hresult (.between (by decide) hnil hnil)))
      (.between (by decide) hnil (.between (by decide) hparams hend)) (by decide) (by decide)

end

/-! ### The text -/

/-- A part of the file around one of its items. -/
theorem sectionText_append {spaced : Bool} {before after : List String} {item : String} :
    C.CompilationUnit.sectionText (spaced, before ++ item :: after) =
      String.join before ++ item ++ (String.join after ++ if spaced then "" else "\n") := by
  have hcons : C.CompilationUnit.sectionText (spaced, before ++ item :: after) =
      String.join (before ++ item :: after) ++ if spaced then "" else "\n" := by
    cases before <;> rfl
  rw [hcons, String.join_append, String.join_cons]
  simp only [String.append_assoc]

/-- The text of a unit that has only types. -/
theorem print_of_types (h : u.includes = #[] ∧ u.prototypes = #[] ∧ u.statics = #[] ∧
    u.definitions = #[]) (indentation : String) : u.print indentation =
      C.CompilationUnit.sectionText (false, u.forwards.toList.map u.forwardText) ++
        C.CompilationUnit.sectionText (false, u.typedefs.toList.map u.typedefText) ++
        C.CompilationUnit.sectionText (true, u.bodies.toList.map u.bodyText) := by
  obtain ⟨hincludes, hprototypes, hstatics, hdefinitions⟩ := h
  unfold C.CompilationUnit.print C.CompilationUnit.sections
  simp [hincludes, hprototypes, hstatics, hdefinitions, C.CompilationUnit.sectionText, String.join_cons, String.append_assoc]

theorem TypeRun.typedefCount {options : Options} (h : TypeRun options log d) :
    d.unit.types.typedefs.shapes.size = Builtin.all.length := by
  induction h with
  | new h => rw [Draft.eq_registered h]; rfl
  | call _ _ hrun ih => cases TypeCall.outcome hrun <;> exact ih

/-- The text declares a type before it uses the type's name: it has the type's declaration, the name does not occur
before that, and in a typedef it occurs only as what is declared. -/
def DeclaresFirst (u : C.CompilationUnit) (indentation : String) (head : Head) (name : String) : Prop :=
  ∃ before line after, (u.print indentation).toList = before ++ line ++ after ∧ name.toList ∉ identifiers before ∧
    (head ∈ u.forwards ∧ line = (u.forwardText head).toList ∨
      head ∈ u.typedefs ∧ line = (u.typedefText head).toList ∧ (identifiers line).count name.toList = 1)

/-- The place of a typedef among the typedefs. -/
def C.Head.typedefRank : Head → Nat
  | .typedef n => n
  | .function n => Builtin.all.length + n
  | _ => 0

/-- Typedefs are listed in the order of their places. -/
theorem Draft.Listed.typedefRank_lt (hd : d.Listed) {before after : List Head}
    (h : d.unit.typedefs.toList = before ++ head :: after) :
    ∀ head' ∈ before, head'.typedefRank < head.typedefRank := by
  have hsorted : d.unit.typedefs.toList.Pairwise fun a b => a.typedefRank < b.typedefRank := by
    rw [hd.typedefs, List.pairwise_append, List.pairwise_map, List.pairwise_map]
    refine ⟨List.pairwise_lt_range, ?_, ?_⟩
    · exact List.pairwise_lt_range.imp fun h => Nat.add_lt_add_left h _
    · intro a ha b hb
      obtain ⟨n, hn, rfl⟩ := List.mem_map.1 ha
      obtain ⟨k, -, rfl⟩ := List.mem_map.1 hb
      exact Nat.lt_add_right k (List.mem_range.1 hn)
  rw [h, List.pairwise_append] at hsorted
  exact fun head' hmem => hsorted.2.2 head' hmem head List.mem_cons_self

section

variable {options : Options} {log : TypeLog} {head : Head} {name : String} (hrun : TypeRun options log d)
  (hname : d.unit.types.headName? head = some name) (indentation : String)

include hrun hname

theorem declaresFirst_of_forwards (hscalar : ∀ s, head ≠ .scalar s) (hhead : head ∈ d.unit.forwards) :
    DeclaresFirst d.unit indentation head name := by
  obtain ⟨hnamed, hlisted, -⟩ := hrun.invariant
  obtain ⟨⟨w, hw⟩, -⟩ := hnamed.toList_name hname hscalar
  obtain ⟨before, after, hsplit, hnotMem⟩ := List.eq_append_cons_of_mem (Array.mem_toList_iff.2 hhead)
  have hlacks : Lacks name.toList (String.join (before.map d.unit.forwardText)).toList := by
    refine .lines hw fun l hl => .inr ?_
    obtain ⟨head', hmem, rfl⟩ := List.mem_map.1 hl
    exact lacks_forwardText hnamed hname hscalar (ne_of_mem_of_not_mem hmem hnotMem)
  obtain ⟨rest, htext⟩ : ∃ rest, (d.unit.print indentation).toList =
      (String.join (before.map d.unit.forwardText)).toList ++ (d.unit.forwardText head).toList ++ rest := by
    rw [print_of_types hrun.rest, hsplit, List.map_append, List.map_cons, sectionText_append]
    simp only [String.toList_append, List.append_assoc]
    exact ⟨_, rfl⟩
  exact ⟨_, _, rest, htext, hlacks, .inl ⟨hhead, rfl⟩⟩

theorem declaresFirst_of_typedefs (hscalar : ∀ s, head ≠ .scalar s) (hhead : head ∈ d.unit.typedefs) :
    DeclaresFirst d.unit indentation head name := by
  obtain ⟨hnamed, hlisted, -⟩ := hrun.invariant
  obtain ⟨⟨w, hw⟩, -⟩ := hnamed.toList_name hname hscalar
  have hmem := Array.mem_toList_iff.2 hhead
  obtain ⟨before, after, hsplit, hnotMem⟩ := List.eq_append_cons_of_mem hmem
  have hcount := count_identifiers_typedefText hnamed hlisted hname hscalar hmem hrun.typedefCount
  have horder := hlisted.typedefRank_lt hsplit
  have htypedef : ∀ n, head = .typedef n → n < Builtin.all.length := by
    rintro n rfl
    simpa [hlisted.typedefs] using hmem
  have hshape : ∀ k, .function k ∈ before → ∃ n, head = .function n ∧ k < n := by
    intro k hk
    have hlt := horder _ hk
    rw [hlisted.typedefs, List.mem_append, List.mem_map, List.mem_map] at hmem
    rcases hmem with ⟨n, -, rfl⟩ | ⟨n, -, rfl⟩
    · have hn := htypedef n rfl
      simp only [C.Head.typedefRank] at hlt
      omega
    · simp only [C.Head.typedefRank] at hlt
      exact ⟨n, rfl, by omega⟩
  have hearlier : Lacks name.toList (String.join (before.map d.unit.typedefText)).toList := by
    refine .lines hw fun l hl => ?_
    obtain ⟨head', hmem', rfl⟩ := List.mem_map.1 hl
    refine lacks_typedefText hnamed hlisted hname hscalar (ne_of_mem_of_not_mem hmem' hnotMem) ?_ ?_
    · rintro n k rfl rfl
      exact horder _ hmem'
    · rintro k rfl
      exact hshape k hmem'
  have hforward : ∀ head' ∈ d.unit.forwards.toList, head' ≠ head := by
    rintro head' hmem' rfl
    have hpos : 0 < d.unit.forwards.count head' := Array.count_pos_iff.2 (Array.mem_toList_iff.1 hmem')
    rw [hlisted.forwards] at hpos
    rw [hlisted.typedefs, List.mem_append, List.mem_map, List.mem_map] at hmem
    rcases hmem with ⟨n, -, rfl⟩ | ⟨n, -, rfl⟩ <;> exact absurd hpos (by simp [Draft.declares])
  have hforwards : Lacks name.toList (C.CompilationUnit.sectionText
      (false, d.unit.forwards.toList.map d.unit.forwardText) ++ String.join (before.map d.unit.typedefText)).toList := by
    rw [String.toList_append]
    cases hlist : d.unit.forwards.toList with
    | nil => exact hearlier
    | cons head' rest =>
      have hlines : Lacks name.toList
          (String.join ((head' :: rest).map d.unit.forwardText)).toList := by
        refine .lines hw fun l hl => .inr ?_
        obtain ⟨head', hmem', rfl⟩ := List.mem_map.1 hl
        exact lacks_forwardText hnamed hname hscalar (hforward head' (hlist ▸ hmem'))
      have hsection : (C.CompilationUnit.sectionText (false, (head' :: rest).map d.unit.forwardText)).toList =
          (String.join ((head' :: rest).map d.unit.forwardText)).toList ++ ['\n'] := String.toList_append
      rw [hsection, List.append_assoc]
      exact .between (by decide) hlines hearlier
  obtain ⟨rest, htext⟩ : ∃ rest, (d.unit.print indentation).toList =
      (C.CompilationUnit.sectionText (false, d.unit.forwards.toList.map d.unit.forwardText) ++
        String.join (before.map d.unit.typedefText)).toList ++ (d.unit.typedefText head).toList ++ rest := by
    rw [print_of_types hrun.rest, hsplit, List.map_append, List.map_cons, sectionText_append]
    simp only [String.toList_append, List.append_assoc]
    exact ⟨_, rfl⟩
  exact ⟨_, _, rest, htext, hforwards, .inr ⟨hhead, rfl, hcount⟩⟩

/-- The first occurrence of a type's name is in its declaration. -/
theorem declared_first (hscalar : ∀ s, head ≠ .scalar s) : DeclaresFirst d.unit indentation head name := by
  obtain ⟨hnamed, hlisted, -⟩ := hrun.invariant
  have hsome : (d.unit.types.headName? head).isSome = true := by rw [hname]; rfl
  obtain ⟨hstruct, harray, hfunction⟩ := hnamed.lt_of_isSome hsome
  have hforward (h : d.declares head = true) : head ∈ d.unit.forwards := by
    have hcount := hlisted.forwards head
    rw [h] at hcount
    exact Array.count_pos_iff.1 (hcount ▸ Nat.one_pos)
  cases hhead : head with
  | scalar s => exact absurd hhead (hscalar s)
  | struct n =>
    exact hhead ▸ declaresFirst_of_forwards hrun hname indentation hscalar
      (hforward (by simp [hhead, Draft.declares, hstruct n hhead]))
  | array n =>
    exact hhead ▸ declaresFirst_of_forwards hrun hname indentation hscalar
      (hforward (by simp [hhead, Draft.declares, harray n hhead]))
  | function n =>
    have hmem : head ∈ d.unit.typedefs.toList := by
      rw [hlisted.typedefs, hhead]
      simpa using hfunction n hhead
    exact hhead ▸ declaresFirst_of_typedefs hrun hname indentation hscalar (Array.mem_toList_iff.1 hmem)
  | typedef n =>
    have hmem : head ∈ d.unit.typedefs.toList := by
      have hlength := congrArg List.length hnamed.typedefs
      rw [Array.length_toList, List.length_map] at hlength
      rw [hlisted.typedefs, hhead]
      rw [hhead] at hsome
      simpa [C.TypeTable.headName?, C.Shapes.name?, hlength] using hsome
    exact hhead ▸ declaresFirst_of_typedefs hrun hname indentation hscalar (Array.mem_toList_iff.1 hmem)

end

/-! ### Calls keep everything in step -/

/-- What holds of a draft after calls for types. -/
structure TypesInStep (log : TypeLog) (d : Draft) : Prop where
  /-- A shape that was asked for gets the same type again, and nothing changes. -/
  known : ∀ call ty, (call, ty) ∈ log → call.isLookup = true → call.run d = .ok (ty, d)
  /-- A shape that was not asked for gets a type that is new. -/
  new : ∀ call ty d', call.isShape = true → (call.isLookup = true → ∀ ty', (call, ty') ∉ log) →
    call.run d = .ok (ty, d') → ¬ Obtained log d ty
  /-- A struct that was declared is never found by its members. -/
  own : ∀ ty, (.declare, ty) ∈ log → ∀ members ty' d', (TypeCall.struct members).run d = .ok (ty', d') → ty' ≠ ty
  /-- Every type at hand has a spelling, and no other one has the same. -/
  spelled : ∀ ty, Obtained log d ty → (∃ text, d.unit.types.render? ty = some text) ∧
    ∀ ty', Obtained log d ty' → (ty = ty' ↔ d.unit.types.render ty = d.unit.types.render ty')
  /-- Every struct and wrapped array has one forward declaration, and there are no others. -/
  forwards : ∀ head, d.unit.forwards.count head = (d.declares head).toNat
  /-- Every struct with members and every wrapped array has one body, and there are no others. -/
  bodies : ∀ head, d.unit.bodies.count head = (d.defines head).toNat
  /-- Every function type has one typedef. -/
  typedefs : ∀ n, d.unit.typedefs.count (.function n) = (decide (n < d.functionCount)).toNat
  /-- Every type is declared before its name is used. -/
  first : ∀ head name indentation, d.unit.types.headName? head = some name → (∀ s, head ≠ .scalar s) →
    DeclaresFirst d.unit indentation head name

/-- A shape that a table has is found there. -/
theorem Answers.findIdx? {α β : Type} [BEq β] [LawfulBEq β] {call : α → TypeCall} {head : Nat → Head} {shape : α → β}
    {s : C.Shapes β} (h : Answers log call head shape s) {a : α} (hmem : (call a, ty) ∈ log) :
    ∃ n, ty = { head := head n } ∧ s.shapes.findIdx? (· == shape a) = some n := by
  obtain ⟨n, rfl, hn⟩ := (h.mem_iff a ty).1 hmem
  refine ⟨n, rfl, ?_⟩
  cases hfind : s.shapes.findIdx? (· == shape a) with
  | none => exact absurd hn (C.Shapes.get?_ne_of_findIdx? hfind n)
  | some k => rw [h.once k n a (C.Shapes.get?_of_findIdx? hfind) hn]

theorem TypeLog.Fits.run_known (hlog : log.Fits d) {call : TypeCall} (hmem : (call, ty) ∈ log)
    (hcall : call.isLookup = true) : call.run d = .ok (ty, d) := by
  have hget {α : Type} (f : Draft → Emit α) : ((get : Emit Draft) >>= f) d = f d d := rfl
  have hintern {β : Type} [BEq β] {s : C.Shapes β} {shape : β} {n : Nat}
      (h : s.shapes.findIdx? (· == shape) = some n) : s.intern shape = ((n, false), s) := by
    unfold C.Shapes.intern
    rw [h]
  cases call with
  | declare | resolve | pointer => cases hcall
  | struct members =>
    obtain ⟨n, rfl, hn⟩ := hlog.structs.findIdx? hmem
    change Emit.structType members d = _
    unfold Emit.structType
    rw [hget, C.TypeTable.internStruct, hintern hn]
    rfl
  | array elem size =>
    obtain ⟨n, rfl, hn⟩ := hlog.arrays.findIdx? (a := ⟨elem, size⟩) hmem
    rw [id_eq] at hn
    change Emit.arrayType elem size d = _
    unfold Emit.arrayType
    rw [hget, C.TypeTable.internArray, hintern hn]
    rfl
  | function result params =>
    obtain ⟨n, rfl, hn⟩ := hlog.functions.findIdx? (a := ⟨result, params⟩) hmem
    rw [id_eq] at hn
    change Emit.functionType result params d = _
    unfold Emit.functionType
    rw [hget, C.TypeTable.internFunction, hintern hn]
    rfl

/-- What is not known by its shape gets a type that no earlier one is. -/
theorem TypeLog.Fits.not_obtained (hlog : log.Fits d) (hd : d.Named) {call : TypeCall} (hcall : call.isShape = true)
    (hnew : call.isLookup = true → ∀ ty', (call, ty') ∉ log) (hrun : call.run d = .ok (ty, d')) :
    ¬ Obtained log d ty := by
  intro hobtained
  obtain ⟨hstruct, harray, hfunction⟩ := hd.lt_of_isSome (hlog.named ty hobtained).1
  cases TypeCall.outcome hrun with
  | resolve | pointer => cases hcall
  | knownStruct hn => exact hnew rfl _ ((hlog.structs.mem_iff _ _).2 ⟨_, rfl, hn⟩)
  | knownArray hn => exact hnew rfl _ ((hlog.arrays.mem_iff ⟨_, _⟩ _).2 ⟨_, rfl, hn⟩)
  | knownFunction hn => exact hnew rfl _ ((hlog.functions.mem_iff ⟨_, _⟩ _).2 ⟨_, rfl, hn⟩)
  | newStruct | declare => exact absurd (hstruct _ rfl) (Nat.lt_irrefl _)
  | newArray => exact absurd (harray _ rfl) (Nat.lt_irrefl _)
  | newFunction => exact absurd (hfunction _ rfl) (Nat.lt_irrefl _)

/-- A struct that was declared is not found by its members. -/
theorem TypeLog.Fits.ne_declared (hlog : log.Fits d) {ty' : CType} (hmem : (.declare, ty) ∈ log) {members : List CType}
    (hrun : (TypeCall.struct members).run d = .ok (ty', d')) : ty' ≠ ty := by
  obtain ⟨n, shape, rfl, hn, hshape⟩ := hlog.declared ty hmem
  cases TypeCall.outcome hrun with
  | @knownStruct _ k hk =>
    rintro ⟨⟩
    exact hshape members (Option.some.inj (hn.symm.trans hk))
  | newStruct =>
    rintro ⟨⟩
    exact absurd (Array.getElem?_eq_some_iff.1 hn).1 (Nat.lt_irrefl _)

/-- After any calls for types, each made with types at hand, the types, their names and the text are in step. -/
theorem type_calls_keep_step {options : Options} {log : TypeLog} (h : TypeRun options log d) : TypesInStep log d := by
  obtain ⟨hnamed, hlisted, hlog⟩ := h.invariant
  refine
    { known := fun call ty => hlog.run_known
      new := fun call ty d' => hlog.not_obtained hnamed
      own := fun ty hmem members ty' d' => hlog.ne_declared hmem
      spelled := fun ty hty => ?_
      forwards := hlisted.forwards
      bodies := hlisted.bodies
      typedefs := fun n => ?_
      first := fun head name indentation hname => declared_first h hname indentation }
  · have hrender (ty : CType) (hty : Obtained log d ty) : ∃ text, d.unit.types.render? ty = some text := by
      obtain ⟨name, hname⟩ := Option.isSome_iff_exists.1 (hlog.named ty hty).1
      unfold C.TypeTable.render?
      rw [hname]
      exact ⟨_, rfl⟩
    refine ⟨hrender ty hty, fun ty' hty' => ⟨fun heq => by rw [heq], fun heq => ?_⟩⟩
    obtain ⟨text, htext⟩ := hrender ty hty
    obtain ⟨text', htext'⟩ := hrender ty' hty'
    obtain ⟨ls, hls⟩ := (hlog.named ty hty).2
    obtain ⟨ls', hls'⟩ := (hlog.named ty' hty').2
    rw [C.TypeTable.render, C.TypeTable.render, htext, htext'] at heq
    cases (show text = text' from heq)
    exact C.TypeTable.render?_inj hnamed.distinctNames hls hls' htext htext'
  · rw [← Array.count_toList, hlisted.typedefs, List.count_append]
    have htypedef : ((List.range Builtin.all.length).map Head.typedef).count (.function n) = 0 :=
      List.count_eq_zero_of_not_mem (by simp)
    rw [htypedef, Nat.zero_add, List.count_map_of_injective _ _ (fun _ _ h => by cases h; rfl),
      List.Nodup.count List.nodup_range]
    by_cases hn : n < d.functionCount <;> simp [hn]

/-! ### Calls that are made -/

/-- Whether a type is at hand. -/
def TypeLog.has (log : TypeLog) (d : Draft) (ty : CType) : Bool :=
  C.Scalar.all.any (ty == .ofScalar ·) || d.builtins.contains ty || log.any (·.2 == ty)

theorem TypeLog.obtained_of_has (h : log.has d ty = true) : Obtained log d ty := by
  unfold TypeLog.has at h
  rw [Bool.or_eq_true, Bool.or_eq_true] at h
  rcases h with (h | h) | h
  · obtain ⟨s, -, hs⟩ := List.any_eq_true.1 h
    exact .inl ⟨s, eq_of_beq hs⟩
  · exact .inr (.inl (by simpa using h))
  · obtain ⟨⟨call, ty'⟩, hmem, heq⟩ := List.any_eq_true.1 h
    exact .inr (.inr ⟨call, eq_of_beq heq ▸ hmem⟩)

/-- Makes one more call if its types are at hand. -/
def replayCall (state : TypeLog × Draft) (call : TypeCall) : Option (TypeLog × Draft) :=
  if call.args.all (state.1.has state.2) then
    match call.run state.2 with
    | .ok (ty, d) => some (state.1 ++ [(call, ty)], d)
    | .error _ => none
  else none

/-- Makes calls one after the other in a new draft. -/
def replay (options : Options) (calls : List TypeCall) : Option (TypeLog × Draft) := do
  let d ← (Draft.new options).toOption
  calls.foldlM replayCall ([], d)

theorem typeRun_of_replay {options : Options} {calls : List TypeCall} (h : replay options calls = some (log, d)) :
    TypeRun options log d := by
  have hfold {calls : List TypeCall} {state : TypeLog × Draft} (hstate : TypeRun options state.1 state.2)
      {log : TypeLog} {d : Draft} (h : calls.foldlM replayCall state = some (log, d)) : TypeRun options log d := by
    induction calls generalizing state with
    | nil => cases h; exact hstate
    | cons call calls ih =>
      rw [List.foldlM_cons] at h
      obtain ⟨state', hcall, h⟩ := Option.bind_eq_some_iff.1 h
      refine ih ?_ h
      unfold replayCall at hcall
      by_cases hargs : call.args.all (state.1.has state.2) = true
      · rw [if_pos hargs] at hcall
        cases hrun : call.run state.2 with
        | error e => rw [hrun] at hcall; cases hcall
        | ok r =>
          rw [hrun] at hcall
          cases hcall
          exact .call hstate (fun a ha => TypeLog.obtained_of_has (List.all_eq_true.1 hargs a ha)) hrun
      · rw [if_neg hargs] at hcall
        cases hcall
  obtain ⟨d₀, hnew, h⟩ := Option.bind_eq_some_iff.1 h
  refine hfold (.new ?_) h
  cases hd : Draft.new options with
  | error e => rw [hd] at hnew; cases hnew
  | ok d₁ => rw [hd] at hnew; cases hnew; rfl

/-- Calls of every kind: a shape that is asked for twice, a declared struct with the members of an interned one, and
pointers. -/
def sampleCalls : List TypeCall :=
  [.struct [.int, .void], .declare, .struct [.int, .void], .resolve 1 [.int, .void],
    .pointer { head := .struct 1 } true, .array { head := .struct 1 } 3, .function .void [{ head := .array 0 }],
    .struct [.int, .void], .array { head := .function 0 } 3]

/-- The calls of `sampleCalls` can be made, and they keep everything in step. -/
theorem type_calls_keep_step_sampleCalls : ∃ log d, replay {} sampleCalls = some (log, d) ∧
    log.map (d.unit.types.render ·.2) = ["t_0", "t_1", "t_0", "t_1", "t_1 const *", "t_2", "t_3", "t_0", "t_4"] ∧
    TypesInStep log d := by
  have hrun : ((replay {} sampleCalls).any fun r => r.1.map (r.2.unit.types.render ·.2) ==
      ["t_0", "t_1", "t_0", "t_1", "t_1 const *", "t_2", "t_3", "t_0", "t_4"]) = true := by
    decide +kernel
  cases h : replay {} sampleCalls with
  | none => rw [h] at hrun; cases hrun
  | some r =>
    rw [h] at hrun
    exact ⟨r.1, r.2, rfl, by simpa using hrun, type_calls_keep_step (typeRun_of_replay h)⟩

end CBackend
