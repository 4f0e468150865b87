import CBackend.Proofs.Types.Operations
import CBackend.Proofs.Types.Spelling

/-!
# The names and declarations of types

The structs, wrapped arrays and function types of a draft share one counter for their names, and each of them is noted
where it has to be declared and defined. What is registered keeps the names distinct and the lists complete.
-/

namespace CBackend

open IR
open C (CType Head StructShape ArrayShape FunctionShape)

/-! ### Names -/

/-- The name of the typedef of a scalar. -/
def typedefName (kind : Builtin) : String :=
  "t_" ++ kind.name

theorem toList_typeName (n : Nat) : (typeName n).toList = 't' :: '_' :: Nat.toDigits 10 n := by
  have hstart : (toString "t_").toList = ['t', '_'] := rfl
  simp [typeName, hstart]

theorem typeName_inj {n k : Nat} (h : typeName n = typeName k) : n = k := by
  have hdigits : Nat.toDigits 10 n = Nat.toDigits 10 k := by
    have hlist := congrArg String.toList h
    rw [toList_typeName, toList_typeName] at hlist
    exact (List.cons.inj (List.cons.inj hlist).2).2
  exact Nat.repr_injective (congrArg String.ofList hdigits)

/-- The first character after `t_` is a digit. -/
theorem exists_digit_typeName (n : Nat) : ∃ c w, (typeName n).toList = 't' :: '_' :: c :: w ∧ c.isDigit = true := by
  rw [toList_typeName]
  cases h : Nat.toDigits 10 n with
  | nil => exact absurd h Nat.toDigits_ne_nil
  | cons c w =>
    exact ⟨c, w, rfl, Nat.isDigit_of_mem_toDigits (by decide) (by decide) (h ▸ List.mem_cons_self)⟩

theorem typeName_ne_typedefName (n : Nat) (kind : Builtin) : typeName n ≠ typedefName kind := by
  obtain ⟨c, w, hn, hc⟩ := exists_digit_typeName n
  intro h
  rw [h] at hn
  cases kind <;> simp [typedefName, Builtin.name] at hn <;> obtain ⟨rfl, -⟩ := hn <;> revert hc <;> decide

theorem typeName_ne_spelling (n : Nat) (s : C.Scalar) : typeName n ≠ s.spelling := by
  obtain ⟨c, w, hn, -⟩ := exists_digit_typeName n
  intro h
  rw [h] at hn
  cases s <;> simp [C.Scalar.spelling] at hn

theorem typedefName_ne_spelling (kind : Builtin) (s : C.Scalar) : typedefName kind ≠ s.spelling := by
  cases kind <;> cases s <;> decide

theorem typedefName_inj {kind kind' : Builtin} (h : typedefName kind = typedefName kind') : kind = kind' := by
  revert h
  cases kind <;> cases kind' <;> decide

theorem spelling_inj {s s' : C.Scalar} (h : s.spelling = s'.spelling) : s = s' := by
  revert h
  cases s <;> cases s' <;> decide

/-- Whether a head is numbered in a draft, other than the typedefs of the scalars. -/
def C.Head.isShape : Head → Bool
  | .struct _ | .array _ | .function _ => true
  | .scalar _ | .typedef _ => false

/-- The names of a draft are distinct: the typedefs have those of the scalars, and the other types have numbered ones,
all of them below the next number. -/
structure Draft.Named (d : Draft) : Prop where
  structs : d.unit.types.structs.names.size = d.structCount
  arrays : d.unit.types.arrays.names.size = d.arrayCount
  functions : d.unit.types.functions.names.size = d.functionCount
  typedefs : d.unit.types.typedefs.names.toList = Builtin.all.map typedefName
  numbered : ∀ head name, head.isShape = true → d.unit.types.headName? head = some name →
    ∃ k < d.typeCounter, name = typeName k
  inj : ∀ head head' name, d.unit.types.headName? head = some name → d.unit.types.headName? head' = some name →
    head = head'

namespace Draft.Named

variable {d d' : Draft}

/-- The name of a head that is not numbered is that of a scalar or of its typedef. -/
theorem fixed (hd : d.Named) {head : Head} {name : String} (hhead : head.isShape = false)
    (h : d.unit.types.headName? head = some name) : (∃ s, name = C.Scalar.spelling s) ∨ ∃ kind, name = typedefName kind := by
  cases head with
  | struct | array | function => cases hhead
  | scalar s => exact .inl ⟨s, (Option.some.inj h).symm⟩
  | typedef n =>
    have hmem : name ∈ Builtin.all.map typedefName := hd.typedefs ▸ Array.mem_toList_iff.2 (Array.mem_of_getElem? h)
    obtain ⟨kind, -, rfl⟩ := List.mem_map.1 hmem
    exact .inr ⟨kind, rfl⟩

/-- A new name is not that of any head. -/
theorem ne_typeName (hd : d.Named) {head : Head} (h : d.unit.types.headName? head = some (typeName d.typeCounter)) :
    False := by
  cases hhead : head.isShape with
  | true =>
    obtain ⟨k, hk, heq⟩ := hd.numbered head _ hhead h
    exact absurd (typeName_inj heq) (Nat.ne_of_gt hk)
  | false =>
    obtain ⟨s, heq⟩ | ⟨kind, heq⟩ := hd.fixed hhead h
    · exact typeName_ne_spelling _ s heq
    · exact typeName_ne_typedefName _ kind heq

/-- One more type is named. -/
theorem add (hd : d.Named) {new : Head}
    (hname : ∀ head, d'.unit.types.headName? head =
      if head = new then some (typeName d.typeCounter) else d.unit.types.headName? head)
    (hcounter : d'.typeCounter = d.typeCounter + 1) (htypedefs : d'.unit.types.typedefs = d.unit.types.typedefs)
    (hstructs : d'.unit.types.structs.names.size = d'.structCount)
    (harrays : d'.unit.types.arrays.names.size = d'.arrayCount)
    (hfunctions : d'.unit.types.functions.names.size = d'.functionCount) : d'.Named where
  structs := hstructs
  arrays := harrays
  functions := hfunctions
  typedefs := htypedefs ▸ hd.typedefs
  numbered head name hhead h := by
    rw [hname] at h
    by_cases heq : head = new
    · rw [if_pos heq] at h
      exact ⟨d.typeCounter, by omega, (Option.some.inj h).symm⟩
    · rw [if_neg heq] at h
      obtain ⟨k, hk, hname⟩ := hd.numbered head name hhead h
      exact ⟨k, by omega, hname⟩
  inj head head' name h h' := by
    rw [hname] at h h'
    by_cases heq : head = new <;> by_cases heq' : head' = new
    · rw [heq, heq']
    · rw [if_pos heq] at h
      rw [if_neg heq', ← h] at h'
      exact (hd.ne_typeName h').elim
    · rw [if_pos heq'] at h'
      rw [if_neg heq, ← h'] at h
      exact (hd.ne_typeName h).elim
    · rw [if_neg heq] at h
      rw [if_neg heq'] at h'
      exact hd.inj head head' name h h'

theorem name?_push {α : Type} {shapes shapes' : Array α} {names : Array String} {name : String} {n : Nat} :
    (⟨shapes', names.push name⟩ : C.Shapes α).name? n =
      if n = names.size then some name else (⟨shapes, names⟩ : C.Shapes α).name? n :=
  Array.getElem?_push

theorem addStruct (hd : d.Named) (shape : StructShape) : (d.addStruct shape).Named := by
  refine @add _ _ hd (.struct d.structCount) (fun head => ?_) rfl rfl ?_ hd.arrays hd.functions
  · cases head with
    | struct n =>
      have hpush := @name?_push _ d.unit.types.structs.shapes (d.unit.types.structs.shapes.push shape)
        d.unit.types.structs.names (typeName d.typeCounter) n
      rw [hd.structs] at hpush
      simp only [Head.struct.injEq]
      exact hpush
    | scalar | array | function | typedef => rw [if_neg nofun]; rfl
  · simp [Draft.addStruct, Draft.structCount, hd.structs]

theorem addArray (hd : d.Named) (shape : ArrayShape) : (d.addArray shape).Named := by
  refine @add _ _ hd (.array d.arrayCount) (fun head => ?_) rfl rfl hd.structs ?_ hd.functions
  · cases head with
    | array n =>
      have hpush := @name?_push _ d.unit.types.arrays.shapes (d.unit.types.arrays.shapes.push shape)
        d.unit.types.arrays.names (typeName d.typeCounter) n
      rw [hd.arrays] at hpush
      simp only [Head.array.injEq]
      exact hpush
    | scalar | struct | function | typedef => rw [if_neg nofun]; rfl
  · simp [Draft.addArray, Draft.arrayCount, hd.arrays]

theorem addFunction (hd : d.Named) (shape : FunctionShape) : (d.addFunction shape).Named := by
  refine @add _ _ hd (.function d.functionCount) (fun head => ?_) rfl rfl hd.structs hd.arrays ?_
  · cases head with
    | function n =>
      have hpush := @name?_push _ d.unit.types.functions.shapes (d.unit.types.functions.shapes.push shape)
        d.unit.types.functions.names (typeName d.typeCounter) n
      rw [hd.functions] at hpush
      simp only [Head.function.injEq]
      exact hpush
    | scalar | struct | array | typedef => rw [if_neg nofun]; rfl
  · simp [Draft.addFunction, Draft.functionCount, hd.functions]

theorem fillStruct (hd : d.Named) (n : Nat) (members : List CType) : (d.fillStruct n members).Named where
  structs := by simp [Draft.fillStruct, Draft.structCount, hd.structs]
  arrays := hd.arrays
  functions := hd.functions
  typedefs := hd.typedefs
  numbered head name hhead h := hd.numbered head name hhead (by cases head <;> exact h)
  inj head head' name h h' := hd.inj head head' name (by cases head <;> exact h) (by cases head' <;> exact h')

/-- The spellings of the types of a draft are distinct. -/
theorem distinctNames (hd : d.Named) : d.unit.types.DistinctNames where
  inj := hd.inj
  ends head name h := by
    cases hhead : head.isShape with
    | true =>
      obtain ⟨k, -, rfl⟩ := hd.numbered head name hhead h
      rw [toList_typeName]
      cases hdigits : (Nat.toDigits 10 k).getLast? with
      | none => exact absurd (List.getLast?_eq_none_iff.1 hdigits) Nat.toDigits_ne_nil
      | some c =>
        have hc := Nat.isDigit_of_mem_toDigits (by decide) (by decide) (List.mem_of_getLast? hdigits)
        refine ⟨c, by simp [List.getLast?_cons, hdigits], ?_, ?_⟩ <;> rintro rfl <;> revert hc <;> decide
    | false =>
      obtain ⟨s, rfl⟩ | ⟨kind, rfl⟩ := hd.fixed hhead h
      · cases s <;> exact ⟨_, rfl, by decide, by decide⟩
      · cases kind <;> exact ⟨_, rfl, by decide, by decide⟩

end Draft.Named

/-! ### Declarations -/

namespace Draft

/-- Whether a head belongs to a struct or a wrapped array of the draft. -/
def declares (d : Draft) : Head → Bool
  | .struct n => decide (n < d.structCount)
  | .array n => decide (n < d.arrayCount)
  | _ => false

/-- Whether a head belongs to a struct whose members are known, or to a wrapped array. -/
def defines (d : Draft) : Head → Bool
  | .struct n => d.unit.types.isStructResolved n
  | .array n => decide (n < d.arrayCount)
  | _ => false

/-- Every type is listed once where it has to be declared and defined, and typedefs only refer to earlier ones. -/
structure Listed (d : Draft) : Prop where
  forwards : ∀ head, d.unit.forwards.count head = (d.declares head).toNat
  bodies : ∀ head, d.unit.bodies.count head = (d.defines head).toNat
  typedefs : d.unit.typedefs.toList =
    (List.range Builtin.all.length).map .typedef ++ (List.range d.functionCount).map .function
  aliases : ∀ n ty, d.unit.types.typedefs.get? n = some ty →
    (∃ s, ty.head = .scalar s) ∨ ∃ k < n, ty.head = .typedef k
  earlier : ∀ n shape, d.unit.types.functions.get? n = some shape → ∀ ty ∈ shape.result :: shape.params, ∀ k,
    ty.head = .function k → k < n

variable {d : Draft} {n : Nat}

/-- One more head is listed, which was not. -/
theorem count_push_new {heads : Array Head} {listed listed' : Head → Bool} {new : Head}
    (h : ∀ head, heads.count head = (listed head).toNat) (hnew : listed new = false)
    (hlisted : ∀ head, listed' head = (listed head || head == new)) (head : Head) :
    (heads.push new).count head = (listed' head).toNat := by
  rw [Array.count_push, h, hlisted]
  by_cases heq : head = new
  · subst heq
    simp [hnew]
  · simp [beq_eq_false_iff_ne.2 heq, Ne.symm heq]

theorem decide_lt_succ (n k : Nat) : decide (n < k + 1) = (decide (n < k) || decide (n = k)) := by
  rw [Bool.eq_iff_iff]
  simp only [decide_eq_true_eq, Bool.or_eq_true]
  omega

theorem isStructResolved_addStruct {shape : StructShape} :
    (d.addStruct shape).unit.types.isStructResolved n =
      if n = d.structCount then shape.isResolved else d.unit.types.isStructResolved n := by
  have hget : (d.addStruct shape).unit.types.structs.get? n =
      if n = d.structCount then some shape else d.unit.types.structs.get? n := Array.getElem?_push
  unfold C.TypeTable.isStructResolved
  rw [hget]
  by_cases hn : n = d.structCount
  · rw [if_pos hn, if_pos hn]
  · rw [if_neg hn, if_neg hn]

theorem isStructResolved_structCount : d.unit.types.isStructResolved d.structCount = false := by
  simp [C.TypeTable.isStructResolved, C.Shapes.get?]

namespace Listed

theorem declares_addStruct (shape : StructShape) (head : Head) :
    (d.addStruct shape).declares head = (d.declares head || head == .struct d.structCount) := by
  cases head with
  | struct n =>
    have hcount : (d.addStruct shape).structCount = d.structCount + 1 := Array.size_push _
    simp only [declares, hcount, decide_lt_succ, beq_eq_decide, Head.struct.injEq]
  | scalar | array | function | typedef => exact (Bool.or_false _).symm

theorem defines_addStruct (shape : StructShape) (head : Head) :
    (d.addStruct shape).defines head = (d.defines head || (shape.isResolved && head == .struct d.structCount)) := by
  cases head with
  | struct n =>
    simp only [defines, isStructResolved_addStruct]
    by_cases hn : n = d.structCount
    · subst hn
      simp [isStructResolved_structCount]
    · simp [hn]
  | scalar | array | function | typedef =>
    exact (congrArg _ (Bool.and_false _)).trans (Bool.or_false _) |>.symm

theorem addStruct (hd : d.Listed) (shape : StructShape) : (d.addStruct shape).Listed where
  forwards := count_push_new hd.forwards (by simp [declares]) (declares_addStruct shape)
  bodies head := by
    have hdefines := defines_addStruct (d := d) shape
    have hbodies : (d.addStruct shape).unit.bodies =
        if shape.isResolved then d.unit.bodies.push (.struct d.structCount) else d.unit.bodies := rfl
    cases hshape : shape.isResolved with
    | true =>
      rw [hshape] at hdefines hbodies
      rw [hbodies]
      exact count_push_new hd.bodies (show d.defines (.struct d.structCount) = false from isStructResolved_structCount)
        hdefines head
    | false =>
      rw [hshape] at hdefines hbodies
      rw [hbodies, hdefines head, Bool.false_and, Bool.or_false]
      exact hd.bodies head
  typedefs := hd.typedefs
  aliases := hd.aliases
  earlier := hd.earlier

theorem declares_addArray (shape : ArrayShape) (head : Head) :
    (d.addArray shape).declares head = (d.declares head || head == .array d.arrayCount) := by
  cases head with
  | array n =>
    have hcount : (d.addArray shape).arrayCount = d.arrayCount + 1 := Array.size_push _
    simp only [declares, hcount, decide_lt_succ, beq_eq_decide, Head.array.injEq]
  | scalar | struct | function | typedef => exact (Bool.or_false _).symm

theorem defines_addArray (shape : ArrayShape) (head : Head) :
    (d.addArray shape).defines head = (d.defines head || head == .array d.arrayCount) := by
  cases head with
  | array n =>
    have hcount : (d.addArray shape).arrayCount = d.arrayCount + 1 := Array.size_push _
    simp only [defines, hcount, decide_lt_succ, beq_eq_decide, Head.array.injEq]
  | scalar | struct | function | typedef => exact (Bool.or_false _).symm

theorem addArray (hd : d.Listed) (shape : ArrayShape) : (d.addArray shape).Listed where
  forwards := count_push_new hd.forwards (by simp [declares]) (declares_addArray shape)
  bodies := count_push_new hd.bodies (by simp [defines]) (defines_addArray shape)
  typedefs := hd.typedefs
  aliases := hd.aliases
  earlier := hd.earlier

theorem addFunction (hd : d.Listed) (shape : FunctionShape)
    (hshape : ∀ ty ∈ shape.result :: shape.params, ∀ k, ty.head = .function k → k < d.functionCount) :
    (d.addFunction shape).Listed where
  forwards head := (hd.forwards head).trans (by cases head <;> rfl)
  bodies head := (hd.bodies head).trans (by cases head <;> rfl)
  typedefs := by
    have hlist : (d.addFunction shape).unit.typedefs.toList = d.unit.typedefs.toList ++ [.function d.functionCount] :=
      Array.toList_push
    have hcount : (d.addFunction shape).functionCount = d.functionCount + 1 := Array.size_push _
    rw [hlist, hcount, hd.typedefs, List.range_succ, List.map_append, List.append_assoc]
    rfl
  aliases := hd.aliases
  earlier n shape' h := by
    have hget : (if n = d.functionCount then some shape else d.unit.types.functions.get? n) = some shape' :=
      Array.getElem?_push.symm.trans h
    by_cases hn : n = d.functionCount
    · rw [if_pos hn] at hget
      cases hget
      exact hn ▸ hshape
    · rw [if_neg hn] at hget
      exact hd.earlier n shape' hget

theorem defines_fillStruct {members : List CType} (hn : d.unit.types.structs.get? n = some .declared) (head : Head) :
    (d.fillStruct n members).defines head = (d.defines head || head == .struct n) := by
  obtain ⟨hlt, -⟩ := Array.getElem?_eq_some_iff.1 hn
  cases head with
  | struct k =>
    have hget : (d.fillStruct n members).unit.types.structs.get? k =
        if n = k then some (.resolved members) else d.unit.types.structs.get? k := by
      refine Array.getElem?_setIfInBounds.trans ?_
      rw [if_pos hlt]
      rfl
    simp only [defines, C.TypeTable.isStructResolved, hget]
    by_cases hk : n = k
    · subst hk
      simp [StructShape.isResolved]
    · simp [hk, Ne.symm hk]
  | scalar | array | function | typedef => exact (Bool.or_false _).symm

theorem fillStruct (hd : d.Listed) {members : List CType} (hn : d.unit.types.structs.get? n = some .declared) :
    (d.fillStruct n members).Listed where
  forwards head := by
    refine (hd.forwards head).trans ?_
    cases head with
    | struct k =>
      have hcount : (d.fillStruct n members).structCount = d.structCount := Array.size_setIfInBounds
      simp only [declares, hcount]
    | scalar | array | function | typedef => rfl
  bodies := count_push_new hd.bodies (by simp [defines, C.TypeTable.isStructResolved, hn, StructShape.isResolved])
    (defines_fillStruct hn)
  typedefs := hd.typedefs
  aliases := hd.aliases
  earlier := hd.earlier

end Listed

end Draft

end CBackend
