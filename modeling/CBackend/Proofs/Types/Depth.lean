import CBackend.Proofs.Types.Aggregates
import Mathlib.Data.List.Nodup
import Mathlib.Data.List.Perm.Subperm

/-!
# How deep types are lowered

Types refer to each other in a graph, and lowering an aggregate leads to its members. An aggregate whose members are
being lowered is not entered again, and each one that is entered belongs to the module. So there are never more
aggregates inside each other than the module has, and a bound that allows for all of them is never reached.
-/

namespace CBackend

open IR Lowering
open C (CType)

variable {α β γ : Type} {P : Draft → Prop} {m : Module} {f : β → Emit α} {n : Nat} {members : List CType}
  {ids : List AggregateId}

/-! ### Computations that agree -/

/-- The computation does not run out of depth. -/
def Shallow (x : Except Fault α) : Prop :=
  x ≠ .error .tooDeep

namespace Shallow

theorem bind {x : Except Fault β} {f : β → Except Fault α} (hx : Shallow x) (hf : ∀ b, Shallow (f b)) :
    Shallow (x >>= f) := by
  cases x with
  | error e => exact fun h => hx (by cases h; rfl)
  | ok b => exact hf b

theorem inRange {o : Option α} : Shallow (CBackend.inRange o) := by
  cases o <;> exact nofun

theorem mapM {l : List β} {f : β → Except Fault α} (hf : ∀ b, Shallow (f b)) : Shallow (l.mapM f) := by
  induction l with
  | nil => exact nofun
  | cons b l ih =>
    rw [List.mapM_cons]
    exact .bind (hf b) fun _ => .bind ih fun _ => nofun

theorem convention {result : Ty} {params : List Ty} : Shallow (Convention.compute m result params) := by
  refine .bind (.mapM fun ty => ?_) fun _ => .bind ?_ fun _ => nofun
  · unfold ParamPassing.ofType
    split
    · exact nofun
    · split
      · exact nofun
      · exact .bind .inRange fun _ => nofun
  · unfold ResultPassing.ofType
    split
    · exact nofun
    · split
      · exact nofun
      · exact .bind .inRange fun _ => nofun

theorem setName {types : C.TypeTable} {head : C.Head} {name : String} : Shallow (types.setName head name) := by
  have hshapes {δ : Type} (s : C.Shapes δ) (n : Nat) : Shallow (s.setName n name) := by
    unfold C.Shapes.setName
    split <;> exact nofun
  cases head with
  | scalar => exact nofun
  | struct | array | function | typedef => exact .bind (hshapes _ _) fun _ => nofun

theorem resolveStruct {types : C.TypeTable} :
    Shallow (types.resolveStruct n members) := by
  unfold C.TypeTable.resolveStruct
  split <;> exact nofun

end Shallow

/-- On the drafts of a kind two computations do the same without running out of depth, and they lead to drafts of
another kind. -/
def AgreeTo (P Q : Draft → Prop) (x y : Emit α) : Prop :=
  ∀ d, P d → y d = x d ∧ Shallow (x d) ∧ Ensures d x fun _ d' => Q d'

/-- The same where they lead to drafts of the first kind. -/
def Agree (P : Draft → Prop) (x : Emit α) (y : Emit α := x) : Prop :=
  AgreeTo P P x y

/-- Computations that agree one after the other. -/
theorem AgreeTo.bind {P Q R : Draft → Prop} {x x' : Emit β} {f' : β → Emit α} (hx : AgreeTo P Q x x')
    (hf : ∀ b, AgreeTo Q R (f b) (f' b)) : AgreeTo P R (x >>= f) (x' >>= f') := by
  intro d hd
  obtain ⟨heq, hshallow, hkeep⟩ := hx d hd
  refine (?_ : _ ∧ _) |> fun h => ⟨h.1, h.2, .bind hkeep fun b d' hd' => (hf b d' hd').2.2⟩
  change Except.bind (x' d) (fun r => f' r.1 r.2) = Except.bind (x d) (fun r => f r.1 r.2) ∧
    Shallow (Except.bind (x d) fun r => f r.1 r.2)
  rw [heq]
  cases hr : x d with
  | error e =>
    refine ⟨rfl, fun h => hshallow ?_⟩
    cases h
    exact hr
  | ok r => exact ⟨(hf r.1 r.2 (hkeep r.1 r.2 hr)).1, (hf r.1 r.2 (hkeep r.1 r.2 hr)).2.1⟩

/-- What is done next may depend on the draft. -/
theorem AgreeTo.get_bind {P Q : Draft → Prop} {f f' : Draft → Emit α}
    (h : ∀ d, P d → AgreeTo (fun d' => d' = d) Q (f d) (f' d)) :
    AgreeTo P Q (MonadState.get >>= f) (MonadState.get >>= f') :=
  fun d hd => h d hd d rfl

namespace Agree

theorem pure {a : α} : Agree P (Pure.pure a) := by
  refine fun d hd => ⟨rfl, nofun, ?_⟩
  rintro _ _ ⟨⟩
  exact hd

theorem throw {e : Fault} (he : e ≠ .tooDeep) :
    Agree P (MonadExcept.throw e : Emit α) := by
  refine fun d _ => ⟨rfl, fun h => he ?_, ?_⟩
  · cases h
    rfl
  · rintro _ _ ⟨⟩

theorem lift {x : Except Fault α} (hx : Shallow x) : Agree P (liftM x : Emit α) := by
  intro d hd
  cases x with
  | error e =>
    refine ⟨rfl, fun h => hx ?_, ?_⟩
    · cases h
      rfl
    · rintro _ _ ⟨⟩
  | ok a =>
    refine ⟨rfl, nofun, ?_⟩
    rintro _ _ ⟨⟩
    exact hd

theorem get : Agree P (MonadState.get : Emit Draft) := by
  refine fun d hd => ⟨rfl, nofun, ?_⟩
  rintro _ _ ⟨⟩
  exact hd

theorem modify {g : Draft → Draft} (hg : ∀ d, P d → P (g d)) : Agree P (modify g : Emit PUnit) := by
  refine fun d hd => ⟨rfl, nofun, ?_⟩
  rintro _ _ ⟨⟩
  exact hg d hd

/-- Which drafts a computation leads to may be known from elsewhere. -/
theorem within {x y : Emit α} (h : Agree (fun _ => True) x y) (hP : ∀ d, P d → Ensures d x fun _ d' => P d') :
    Agree P x y :=
  fun d hd => ⟨(h d trivial).1, (h d trivial).2.1, hP d hd⟩

theorem seq {x x' : Emit β} {f' : β → Emit α} (hx : Agree P x x') (hf : ∀ b, Agree P (f b) (f' b)) :
    Agree P (x >>= f) (x' >>= f') :=
  AgreeTo.bind hx hf

theorem ite {c : Prop} [Decidable c] {x x' y y' : Emit α} (hx : Agree P x x') (hy : Agree P y y') :
    Agree P (if c then x else y) (if c then x' else y') := by
  by_cases hc : c
  · rwa [if_pos hc, if_pos hc]
  · rwa [if_neg hc, if_neg hc]

theorem mapM {R : β → γ → Prop} {l : List β} {l' : List γ} {f' : γ → Emit α} (h : List.Forall₂ R l l')
    (hf : ∀ b c, R b c → Agree P (f b) (f' c)) : Agree P (l.mapM f) (l'.mapM f') := by
  induction h with
  | nil => exact .pure
  | cons hbc _ ih =>
    rw [List.mapM_cons, List.mapM_cons]
    exact .seq (hf _ _ hbc) fun _ => .seq ih fun _ => .pure

/-! ### Types -/

theorem pointerFor {ty : CType} {isConst : Bool} : Agree P (Emit.pointerFor ty isConst) := by
  unfold Emit.pointerFor Emit.pointerTo
  split
  · exact .pure
  · exact .throw nofun

theorem builtin {kind : Builtin} : Agree P (Emit.builtin kind) := by
  refine .seq .get fun d => ?_
  split
  · exact .pure
  · exact .throw nofun

/-- What a parameter adds to the parameters of a signature. -/
theorem passedType {x x' : (Bool → Emit CType) × ParamPassing} (h : ∀ b, Agree P (x.1 b) (x'.1 b))
    (heq : x.2 = x'.2) :
    Agree P (passed x) (passed x') := by
  unfold passed
  rw [← heq]
  cases x.2 with
  | omitted => exact .pure
  | direct => exact .seq (h true) fun _ => .pure
  | reference => exact .seq (h false) fun _ => .pure
  | indirect => exact .seq (h true) fun _ => .seq .pointerFor fun _ => .pure

theorem signatureOf {c : Convention} {result result' : Bool → Emit CType} {params params' : List (Bool → Emit CType)}
    (hresult : ∀ b, Agree P (result b) (result' b))
    (hparams : List.Forall₂ (fun f f' => ∀ b, Agree P (f b) (f' b)) params params') :
    Agree P (signatureOf c result params) (signatureOf c result' params') := by
  have hpassed := Agree.mapM (P := P) (forall₂_zip hparams (P := fun _ => True) (fun _ _ => trivial) c.params)
    fun _ _ h => passedType h.1 h.2.1
  obtain ⟨passings, resultPassing⟩ := c
  cases resultPassing with
  | nothing => exact .seq .pure fun _ => .seq hpassed fun _ => .pure
  | direct => exact .seq (hresult true) fun _ => .seq .pure fun _ => .seq hpassed fun _ => .pure
  | reference => exact .seq (hresult false) fun _ => .seq .pure fun _ => .seq hpassed fun _ => .pure
  | indirect =>
    exact .seq (hresult true) fun _ => .seq .pointerFor fun _ => .seq .pure fun _ => .seq hpassed fun _ => .pure

end Agree

/-- The members of some aggregates are being lowered. -/
def AreResolving (ids : List AggregateId) (d : Draft) : Prop :=
  ∀ id ∈ ids, ∃ n, d.aggregates.lookup id = some (.resolving n)

/-- The state of an aggregate that is not among them does not matter. -/
theorem AreResolving.cons {d : Draft} {id : AggregateId} {state : AggregateState} (h : AreResolving ids d)
    (hid : id ∉ ids) :
    AreResolving ids { d with aggregates := (id, state) :: d.aggregates } := by
  intro id' hmem
  obtain ⟨n, hn⟩ := h id' hmem
  exact ⟨n, (Draft.Consistent.lookup_cons_ne (ne_of_mem_of_not_mem hmem hid)).trans hn⟩

namespace Agree

variable {ids : List AggregateId}

theorem nameType {head : C.Head} : Agree (fun _ => True) (Emit.nameType head) :=
  .seq .get fun d => .seq (.lift .setName) fun types =>
    .modify (g := fun _ => { d with unit.types := types, typeCounter := d.typeCounter + 1 }) fun _ _ => trivial

theorem structType :
    Agree (AreResolving ids) (Emit.structType members) := by
  refine .within (.seq .get fun d => .seq (.modify fun _ _ => trivial) fun _ => .ite ?_ .pure) fun d hd ty d' h => ?_
  · exact .seq .nameType fun _ => .seq (.modify fun _ _ => trivial) fun _ => .seq (.modify fun _ _ => trivial) fun _ => .pure
  · obtain ⟨_, -, -, rfl⟩ | ⟨-, -, -, rfl⟩ := Ensures.structType_cases ty d' h <;> exact hd

theorem arrayType {elem : CType} {size : Nat} :
    Agree (AreResolving ids) (Emit.arrayType elem size) := by
  refine .within (.seq .get fun d => .seq (.modify fun _ _ => trivial) fun _ => .ite ?_ .pure) fun d hd ty d' h => ?_
  · exact .seq .nameType fun _ => .seq (.modify fun _ _ => trivial) fun _ => .seq (.modify fun _ _ => trivial) fun _ => .pure
  · obtain ⟨_, -, -, rfl⟩ | ⟨-, -, -, rfl⟩ := Ensures.arrayType_cases ty d' h <;> exact hd

theorem functionType {result : CType} {params : List CType} :
    Agree (AreResolving ids) (Emit.functionType result params) := by
  refine .within (.seq .get fun d => .seq (.modify fun _ _ => trivial) fun _ => .ite ?_ .pure) fun d hd ty d' h => ?_
  · exact .seq .nameType fun _ => .seq (.modify fun _ _ => trivial) fun _ => .pure
  · obtain ⟨_, -, -, rfl⟩ | ⟨-, -, -, rfl⟩ := Ensures.functionType_cases ty d' h <;> exact hd

theorem declareStruct : Agree (fun _ => True) Emit.declareStruct :=
  .seq .get fun _ => .seq (.modify fun _ _ => trivial) fun _ => .seq .nameType fun _ =>
    .seq (.modify fun _ _ => trivial) fun _ => .pure

theorem resolveStruct :
    Agree (fun _ => True) (Emit.resolveStruct n members) :=
  .seq .get fun _ => .seq (.lift .resolveStruct) fun _ => .seq (.modify fun _ _ => trivial) fun _ =>
    .modify fun _ _ => trivial

section

variable {aggregate aggregate' : AggregateId → Bool → Emit CType}

mutual

theorem ofTy (h : ∀ id define, Agree (AreResolving ids) (aggregate id define) (aggregate' id define)) :
    ∀ (ty : Ty) (define : Bool),
      Agree (AreResolving ids) (Lowering.ofTy m aggregate ty define) (Lowering.ofTy m aggregate' ty define)
  | .void, _ => .pure
  | .builtin _, _ | .enum _, _ => .builtin
  | .str, _ => .seq .builtin fun _ => .seq .pointerFor fun _ => .structType
  | .aggregate id, define => h id define
  | .pointer pointee _, _ | .reference pointee _, _ | .moveReference pointee, _ =>
    .seq (ofTy h pointee false) fun _ => .pointerFor
  | .optional payload, define =>
    .ite (ofTy h payload define) (.seq (ofTy h payload true) fun _ => .seq .builtin fun _ => .structType)
  | .array elem _, _ => .seq (ofTy h elem true) fun _ => .arrayType
  | .slice elem _, _ => .seq (ofTy h elem false) fun _ => .seq .pointerFor fun _ => .structType
  | .tuple elems, _ => .seq (.mapM (ofEach h elems) fun _ _ hf => hf true) fun _ => .structType
  | .function result params, _ =>
    .seq (.lift .convention) fun _ => .seq (.signatureOf (ofTy h result) (ofEach h params)) fun _ => .functionType

theorem ofEach (h : ∀ id define, Agree (AreResolving ids) (aggregate id define) (aggregate' id define)) :
    ∀ tys : List Ty, List.Forall₂ (fun f f' => ∀ b, Agree (AreResolving ids) (f b) (f' b))
      (Lowering.ofEach m aggregate tys) (Lowering.ofEach m aggregate' tys)
  | [] => .nil
  | ty :: tys => .cons (ofTy h ty) (ofEach h tys)

end

end

end Agree

/-! ### Aggregates -/

/-- Aggregates of a module without repetition are at most as many as the module has. -/
theorem length_le_of_nodup_aggregates (hnodup : ids.Nodup) (h : ∀ id ∈ ids, m.aggregate? id ≠ none) :
    ids.length ≤ m.aggregates.size := by
  have hindex : (ids.map (·.index)).Nodup := List.Nodup.map (fun a b h => by cases a; cases b; simpa using h) hnodup
  have hsubset : ids.map (·.index) ⊆ List.range m.aggregates.size := by
    intro n hn
    obtain ⟨id, hid, rfl⟩ := List.mem_map.1 hn
    obtain ⟨decl, hdecl⟩ := Option.ne_none_iff_exists'.1 (h id hid)
    exact List.mem_range.2 (Array.getElem?_eq_some_iff.1 hdecl).1
  have hlength := (hindex.subperm hsubset).length_le
  rwa [List.length_map, List.length_range] at hlength

/-- The members of one more aggregate are lowered, which is not among those whose members are being lowered. -/
theorem agree_resolve {aggregate aggregate' : AggregateId → Bool → Emit CType} {id : AggregateId} (hid : id ∉ ids)
    (hinner : m.aggregate? id ≠ none →
      ∀ id' define, Agree (AreResolving (id :: ids)) (aggregate id' define) (aggregate' id' define)) :
    Agree (AreResolving ids) (resolve m aggregate id n) (resolve m aggregate' id n) := by
  have hresolving {d : Draft} (hd : AreResolving ids d) :
      AreResolving (id :: ids) { d with aggregates := (id, .resolving n) :: d.aggregates } := by
    intro id' hmem
    by_cases heq : id' = id
    · exact ⟨n, heq ▸ List.lookup_cons_self⟩
    · exact hd.cons hid id' ((List.mem_cons.1 hmem).resolve_left heq)
  have hweaken {d : Draft} (hd : AreResolving (id :: ids) d) : AreResolving ids d :=
    fun id' hmem => hd id' (List.mem_cons_of_mem _ hmem)
  refine AgreeTo.bind (Q := AreResolving (id :: ids)) (fun d hd => ⟨rfl, nofun, ?_⟩) fun _ => ?_
  · rintro _ _ ⟨⟩
    exact hresolving hd
  · cases hdecl : m.aggregate? id with
    | none => exact fun d _ => ⟨rfl, nofun, by rintro _ _ ⟨⟩⟩
    | some decl =>
      refine AgreeTo.bind (Q := AreResolving (id :: ids)) (Agree.lift .inRange) fun decl => ?_
      have hmembers : Agree (AreResolving (id :: ids))
          (decl.members.mapM fun ty => ofTy m aggregate ty true)
          (decl.members.mapM fun ty => ofTy m aggregate' ty true) := by
        refine .mapM (R := Eq) (List.forall₂_same.2 fun _ _ => rfl) ?_
        rintro ty _ rfl
        exact .ofTy (hinner (by rw [hdecl]; exact nofun)) ty true
      refine AgreeTo.bind hmembers fun members => AgreeTo.bind (Q := AreResolving ids) ?_ fun _ =>
        Agree.modify fun d hd => hd.cons hid
      refine fun d hd => ⟨rfl, (Agree.resolveStruct d trivial).2.1, fun _ d' h => ?_⟩
      obtain ⟨-, rfl⟩ := Ensures.resolveStruct_eq _ d' h
      exact hweaken hd

/-- While the members of enough aggregates are being lowered that only fewer others are left than the bound allows, a
deeper bound changes nothing. The induction is on the bound, and each aggregate that is entered is one that was not. -/
theorem agree_aggregateType {k : Nat} (hnodup : ids.Nodup) (hids : ∀ id ∈ ids, m.aggregate? id ≠ none)
    (hk : m.aggregates.size < ids.length + k) (id : AggregateId) (define : Bool) :
    Agree (AreResolving ids) (aggregateType m k id define) (aggregateType m (k + 1) id define) := by
  induction k generalizing ids id define with
  | zero => exact absurd (length_le_of_nodup_aggregates hnodup hids) (by omega)
  | succ k ih =>
    have hinner (hid : id ∉ ids) (hdecl : m.aggregate? id ≠ none) (id' : AggregateId) (define : Bool) :
        Agree (AreResolving (id :: ids)) (aggregateType m k id' define)
          (aggregateType m (k + 1) id' define) :=
      ih (List.nodup_cons.2 ⟨hid, hnodup⟩)
        (fun id' hmem => (List.mem_cons.1 hmem).elim (fun h => h ▸ hdecl) (hids id'))
        (by rw [List.length_cons]; omega) id' define
    refine AgreeTo.get_bind fun d hd => ?_
    have hnotin (h : ∀ n, d.aggregates.lookup id ≠ some (.resolving n)) : id ∉ ids := fun hmem =>
      let ⟨n, hn⟩ := hd id hmem
      h n hn
    have hstart {x y : Emit CType} (h : Agree (AreResolving ids) x y) :
        AgreeTo (fun d' => d' = d) (AreResolving ids) x y := by
      rintro d' rfl
      exact h d' hd
    have hset (hid : id ∉ ids) {state : AggregateState} :
        Agree (AreResolving ids) (setAggregate id state) :=
      .modify fun d hd => hd.cons hid
    cases hlookup : d.aggregates.lookup id with
    | some state =>
      cases state with
      | declared n =>
        have hid := hnotin fun n h => by rw [hlookup] at h; cases h
        exact hstart (.ite (.seq (agree_resolve hid (hinner hid)) fun _ => .pure) .pure)
      | incomplete n =>
        exact hstart (.ite (.seq (.lift .inRange) fun _ => .seq (.throw nofun) fun _ => .pure) .pure)
      | resolving n | resolved n => exact hstart .pure
    | none =>
      have hid := hnotin fun n h => by rw [hlookup] at h; cases h
      refine hstart (.seq (.within .declareStruct fun d hd n d' h => ?_) fun n => .seq (.lift .inRange) fun decl => ?_)
      · obtain ⟨-, -, rfl⟩ := Ensures.declareStruct_eq n d' h
        exact hd
      · refine .ite (.seq (hset hid) fun _ => .ite (.seq (.throw nofun) fun _ => .pure) .pure) (.ite ?_ ?_)
        · exact .seq (agree_resolve hid (hinner hid)) fun _ => .pure
        · exact .seq (hset hid) fun _ => .pure

/-- Lowering a type ends by itself, and a deeper bound gives the same. -/
theorem agree_lowerType (ty : Ty) (define : Bool) (k : Nat) :
    Agree (fun _ => True) (lowerType m ty define)
      (ofTy m (aggregateType m (m.aggregates.size + 1 + k)) ty define) := by
  have hids {d : Draft} : AreResolving [] d := fun id hmem => absurd hmem List.not_mem_nil
  have hstep (k : Nat) (id : AggregateId) (define : Bool) :
      Agree (AreResolving []) (aggregateType m (m.aggregates.size + 1 + k) id define)
        (aggregateType m (m.aggregates.size + 1 + k + 1) id define) :=
    agree_aggregateType List.nodup_nil (fun _ hmem => absurd hmem List.not_mem_nil) (by simp; omega) id define
  induction k with
  | zero => exact fun d _ => ⟨rfl, (Agree.ofTy (hstep 0) ty define d hids).2.1, fun _ _ _ => trivial⟩
  | succ k ih =>
    exact fun d _ => ⟨(Agree.ofTy (hstep k) ty define d hids).1.trans (ih d trivial).1, (ih d trivial).2.1,
      fun _ _ _ => trivial⟩

theorem lowerType_ne_tooDeep (ty : Ty) (define : Bool) (d : Draft) :
    lowerType m ty define d ≠ .error .tooDeep :=
  (agree_lowerType ty define 0 d trivial).2.1

theorem ofTy_eq_lowerType {depth : Nat} (h : m.aggregates.size < depth) (ty : Ty) (define : Bool) :
    ofTy m (aggregateType m depth) ty define = lowerType m ty define := by
  obtain ⟨k, rfl⟩ := Nat.exists_eq_add_of_le (Nat.succ_le_of_lt h)
  funext d
  exact (agree_lowerType ty define k d trivial).1

end CBackend
