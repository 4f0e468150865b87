import CBackend.Proofs.Initialisers.Drafts
import CBackend.Proofs.Initialisers.Objects
import CBackend.Proofs.Types.Spelling

/-!
# The places of lowered types

The places in an object of a lowered type, read off the source type: one for each member, component or element, and two
for an optional that stores a flag. A list between braces for a source type, with or without the type before it, starts
such an object.
-/

namespace CBackend

open IR
open C (CType Part memberParts)

/-- The definitions of a draft give every type its places: its aggregates are in order, and the scalars are typedefs. -/
structure Draft.Laid (m : Module) (d : Draft) : Prop where
  ordered : d.Ordered m
  scalars : ∀ ty ∈ d.builtins, ∃ n, ty = { head := .typedef n }

/-- Whether an object of the type is a scalar in the output. -/
def IR.Ty.isLeaf : Ty → Bool
  | .void | .builtin _ | .enum _ | .pointer .. | .reference .. | .moveReference _ | .function .. => true
  | .optional payload => (Ty.optional payload).isOptionalPointerLike
  | .str | .aggregate _ | .array .. | .slice .. | .tuple _ => false

variable {m : Module} {d d' D : Draft} {members : List CType} {cty : CType}

theorem Draft.Laid.onward (hd : d.Laid m) (h : Onward m d d') : d'.Laid m :=
  ⟨h.ordered hd.ordered, by rw [h.later.builtins]; exact hd.scalars⟩

/-! ### Places -/

theorem isPointer_mk (head : C.Head) : C.CType.isPointer { head } = false := by
  change (!C.PointerChain.empty.isEmpty) = false
  decide

/-- The struct that is found for some members has them. -/
theorem exists_of_structOf? (h : structOf? members D = some cty) :
    ∃ n, cty = { head := .struct n } ∧ D.unit.types.structs.get? n = some (.interned members) := by
  obtain ⟨n, hn, rfl⟩ := Option.map_eq_some_iff.1 h
  obtain ⟨hlt, hget, -⟩ := Array.findIdx?_eq_some_iff_getElem.1 hn
  exact ⟨n, rfl, by rw [C.Shapes.get?, Array.getElem?_eq_getElem hlt, eq_of_beq hget]⟩

theorem exists_of_arrayOf? {shape : C.ArrayShape} (h : arrayOf? shape D = some cty) :
    ∃ n, cty = { head := .array n } ∧ D.unit.types.arrays.get? n = some shape := by
  obtain ⟨n, hn, rfl⟩ := Option.map_eq_some_iff.1 h
  obtain ⟨hlt, hget, -⟩ := Array.findIdx?_eq_some_iff_getElem.1 hn
  exact ⟨n, rfl, by rw [C.Shapes.get?, Array.getElem?_eq_getElem hlt, eq_of_beq hget]⟩

theorem parts?_structOf? (h : structOf? members D = some cty) :
    D.unit.types.parts? (.object cty) = some (memberParts members) := by
  obtain ⟨n, rfl, hshape⟩ := exists_of_structOf? h
  simp [C.TypeTable.parts?, isPointer_mk, hshape, C.StructShape.parts?]

theorem parts?_arrayOf? {elem : CType} {size : Nat} (h : arrayOf? ⟨elem, size⟩ D = some cty) :
    D.unit.types.parts? (.object cty) = some [.elements elem (max size 1)] := by
  obtain ⟨n, rfl, hshape⟩ := exists_of_arrayOf? h
  simp [C.TypeTable.parts?, isPointer_mk, hshape]

/-- The types of several source types, looked up one by one. -/
theorem forall₂_of_mapM_typeOf? {tys : List Ty} (h : tys.mapM (typeOf? m) D = some members) :
    List.Forall₂ (fun ty cty => typeOf? m ty D = some cty) tys members := by
  induction tys generalizing members with
  | nil =>
    cases h
    exact .nil
  | cons ty tys ih =>
    rw [List.mapM_cons] at h
    obtain ⟨cty, hcty, h⟩ := Option.bind_eq_some_iff.1 h
    obtain ⟨ctys, hctys, h⟩ := Option.bind_eq_some_iff.1 h
    cases h
    exact .cons hcty (ih hctys)

/-- An aggregate that has been defined has a place for each of its members. -/
theorem parts?_aggregateOf? {id : AggregateId} {n : Nat} (hD : D.Laid m)
    (hid : D.aggregates.lookup id = some (.resolved n)) (h : aggregateOf? id D = some cty) :
    ∃ decl members, m.aggregate? id = some decl ∧
      D.unit.types.parts? (.object cty) = some (memberParts members) ∧
      List.Forall₂ (fun ty cty => typeOf? m ty D = some cty) decl.members members := by
  obtain ⟨state, hstate, rfl⟩ := Option.map_eq_some_iff.1 h
  cases hid.symm.trans hstate
  obtain ⟨decl, members, hdecl, hshape, hmembers, -⟩ := hD.ordered.resolved id n hid
  refine ⟨decl, members, hdecl, ?_, forall₂_of_mapM_typeOf? hmembers⟩
  simp [C.TypeTable.parts?, isPointer_mk, AggregateState.structNumber, hshape, C.StructShape.parts?]

theorem parts?_builtinOf? {kind : Builtin} (hD : D.Laid m) (h : builtinOf? kind D = some cty) :
    D.unit.types.parts? (.object cty) = some [] := by
  obtain ⟨n, rfl⟩ := hD.scalars cty (Array.mem_of_getElem? h)
  simp [C.TypeTable.parts?]

theorem parts?_pointerOf? {ty : CType} {isConst : Bool} (h : pointerOf? ty isConst D = some cty) :
    D.unit.types.parts? (.object cty) = some [] := by
  obtain ⟨chain, hchain, rfl⟩ := Option.map_eq_some_iff.1 h
  have hpointer : C.CType.isPointer { ty with chain } = true := by
    simp [C.CType.isPointer, C.PointerChain.isEmpty, (C.PointerChain.push?_spec hchain).2.1]
  rw [C.TypeTable.parts?, if_pos hpointer]

theorem parts?_functionOf? {shape : C.FunctionShape} (h : functionOf? shape D = some cty) :
    D.unit.types.parts? (.object cty) = some [] := by
  obtain ⟨n, -, rfl⟩ := Option.map_eq_some_iff.1 h
  simp [C.TypeTable.parts?]

/-- The types of pointers, references and functions are those of addresses. -/
theorem parts?_of_isLeaf (hD : D.Laid m) : ∀ {ty : Ty} {cty : CType}, ty.isLeaf = true → typeOf? m ty D = some cty →
    D.unit.types.parts? (.object cty) = some []
  | .void, _, _, h => by
    cases h
    rfl
  | .builtin _, _, _, h | .enum _, _, _, h => parts?_builtinOf? hD h
  | .pointer .., _, _, h | .reference .., _, _, h | .moveReference _, _, _, h => by
    obtain ⟨_, -, h⟩ := Option.bind_eq_some_iff.1 h
    exact parts?_pointerOf? h
  | .function .., _, _, h => by
    obtain ⟨_, -, h⟩ := Option.bind_eq_some_iff.1 h
    obtain ⟨_, -, h⟩ := Option.bind_eq_some_iff.1 h
    exact parts?_functionOf? h
  | .optional payload, _, hleaf, h => by
    have hlike : (Ty.optional payload).isOptionalPointerLike = true := hleaf
    rw [typeOf?, if_pos hlike] at h
    have hpayload : payload.isLeaf = true := by cases payload <;> first | rfl | cases hleaf
    exact parts?_of_isLeaf hD hpayload h

/-- The places in an optional that stores a flag: the payload and the flag. -/
theorem parts?_optional {payload : Ty} (hflag : (Ty.optional payload).isOptionalPointerLike = false)
    (h : typeOf? m (.optional payload) D = some cty) :
    ∃ pty bty, typeOf? m payload D = some pty ∧ builtinOf? .bool D = some bty ∧
      D.unit.types.parts? (.object cty) = some [.object pty, .object bty] := by
  rw [typeOf?, hflag, if_neg Bool.false_ne_true] at h
  obtain ⟨pty, hpty, h⟩ := Option.bind_eq_some_iff.1 h
  obtain ⟨bty, hbty, h⟩ := Option.bind_eq_some_iff.1 h
  exact ⟨pty, bty, hpty, hbty, parts?_structOf? h⟩

/-- The places in a string view: two pointers. -/
theorem parts?_str (h : typeOf? m .str D = some cty) :
    ∃ pty, D.unit.types.parts? (.object pty) = some [] ∧
      D.unit.types.parts? (.object cty) = some [.object pty, .object pty] := by
  obtain ⟨bty, -, h⟩ := Option.bind_eq_some_iff.1 h
  obtain ⟨pty, hpty, h⟩ := Option.bind_eq_some_iff.1 h
  exact ⟨pty, parts?_pointerOf? hpty, parts?_structOf? h⟩

theorem parts?_array {elem : Ty} {size : Nat} (h : typeOf? m (.array elem size) D = some cty) :
    ∃ ety, typeOf? m elem D = some ety ∧ D.unit.types.parts? (.object cty) = some [.elements ety (max size 1)] := by
  obtain ⟨ety, hety, h⟩ := Option.bind_eq_some_iff.1 h
  exact ⟨ety, hety, parts?_arrayOf? h⟩

theorem parts?_tuple {elems : List Ty} (h : typeOf? m (.tuple elems) D = some cty) :
    ∃ members, List.Forall₂ (fun ty cty => typeOf? m ty D = some cty) elems members ∧
      D.unit.types.parts? (.object cty) = some (memberParts members) := by
  obtain ⟨members, hmembers, h⟩ := Option.bind_eq_some_iff.1 h
  rw [typesOf?_eq_map, List.mapM_map] at hmembers
  exact ⟨members, forall₂_of_mapM_typeOf? hmembers, parts?_structOf? h⟩

/-! ### Lists between braces -/

/-- A list between braces starts an object of its type, and the array in it only if no type stands before it. -/
theorem Ensures.braced_starts {compound : Bool} {ty : Ty} {es : List C.Expr} :
    Ensures d (Lowering.braced m compound ty es) fun e d' => ∃ oty, e = .braces oty .constant es ∧
      (compound = true → oty ≠ none) ∧
      ∀ D, Onward m d' D → ∀ cty, typeOf? m ty D = some cty → C.Starts (.object cty) e := by
  unfold Lowering.braced
  cases compound with
  | false => exact .pure ⟨none, rfl, nofun, fun _ _ _ _ => trivial⟩
  | true =>
    refine .bind (Finds.lowerType m ty true d) ?_
    rintro bty d₁ ⟨-, hbty⟩
    refine .pure ⟨some bty, rfl, nofun, fun D hD cty hcty => ?_⟩
    have hsame := stable_typeOf? m ty d₁ D bty hD.later hbty
    cases hsame.symm.trans hcty
    rfl

end CBackend
