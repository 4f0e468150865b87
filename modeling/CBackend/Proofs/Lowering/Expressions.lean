import CBackend.Lowering.Expressions
import CBackend.Proofs.Lowering.Access
import CBackend.Proofs.Lowering.Statements
import CBackend.Proofs.Lowering.Intrinsics

/-!
# Expressions in growing drafts

What lowering writes for one expression, kind by kind, and for a whole tree of nodes. The induction is on
the depth to which nodes are lowered, so that what is known of a walk is known of the walk one level up.
-/

namespace CBackend

open IR Flow Emission
open C (CType)
open Lowering (Walk)

variable {strict : Bool} {m : Module} {bal : Bool} {γ : Exits} {d d₁ : Draft} {v : Value}
  {dest : Option Value} {ty : Ty} {w : Walk}

theorem mem_exprs_of_elementPlan? {kind : ExprKind} {plan : ExprId} (h : kind.elementPlan? = some plan) :
    plan ∈ kind.exprs := by
  unfold ExprKind.elementPlan? at h
  split at h <;> cases h <;> simp [ExprKind.exprs]

namespace Lowers

theorem globalRef {x : VarId} : Lowers strict m bal γ d (do
    match ← Emit.global? x with
    | some value => Pure.pure value
    | none => MonadExcept.throw (Fault.undeclaredVariable (← inRange (m.var? x)).name)) := by
  refine .bind Silently.global?.lowers fun v _ _ hv => ?_
  split
  · exact .pure hv
  · exact .lift fun _ _ => .throw

theorem variableRef {x : VarId} : Lowers strict m bal γ d (Lowering.variableRef m x) := by
  intro hd
  refine .bind (Q := fun v d' => d = d' ∧ Fits d v) (.getFunction_bind (.pure ⟨rfl, ?_⟩)) ?_
  · cases hx : d.func.locals.lookup x with
    | none => exact .none
    | some v => exact hd.locals _ (mem_of_lookup_eq_some hx)
  · rintro v _ ⟨rfl, hv⟩
    split
    · exact .pure ⟨.refl hd, hv⟩
    · exact globalRef hd

theorem functionRef {func : FuncId} (h : m.Reached (.func func)) :
    Lowers strict m bal γ d (Lowering.functionRef m func ty) := by
  refine .bind (Silently.declareFunction h).lowers fun name _ _ hname => ?_
  exact .bind Silently.valueType.lowers fun _ _ g _ => .rvalue (g.fits hname)

theorem call (hw : w.Sound strict m) {func : FuncId} {args : List ExprId} {order : ArgOrder}
    (hfunc : ∀ f ∈ m.funcsOf (.call func args order), m.Reached (.func f))
    (h : ∀ e ∈ args, Allowed strict m γ (.expr e)) (hdest : Fits d dest) :
    Lowers strict m false γ d (Lowering.call m w func args order ty dest) := by
  refine .lift fun f hf => ?_
  split
  · exact .intrinsicCall hw h hdest
  · next hnone =>
    refine .directCall hw (hfunc func ?_) h hdest
    simp [Module.funcsOf, eq_some_of_inRange hf, Function.isIntrinsic, hnone]

theorem destructorCall (hw : w.Sound strict m) {call : Option ExprId}
    (h : ∀ e ∈ call, Allowed strict m γ (.expr e)) (hv : Fits d v) :
    Lowers strict m bal γ d (Lowering.destructorCall w v call) := by
  unfold Lowering.destructorCall
  split
  · next e => exact hw.withBound (h e rfl) (hv.cons .nil) .none
  · exact .pure (.of_nil rfl)

/-- A computation after which there is no value. -/
theorem noValue {x : Emit Unit} (h : Lowers strict m bal γ d x) :
    Lowers strict m bal γ d (do x; Pure.pure Value.none) :=
  .bind h fun _ _ _ _ => .pure (.of_nil rfl)

/-- An expression by its kind. -/
theorem exprKind (hw : w.Sound strict m) {e : Expr} (ha : Admits strict m γ)
    (hexprs : ∀ x ∈ e.kind.exprs, Allowed strict m γ (.expr x))
    (hstmts : ∀ s ∈ e.kind.stmts, Allowed strict m γ (.stmt s))
    (hplan : ∀ x ∈ e.kind.elementPlan?, Allowed strict m (γ.inElements strict) (.expr x))
    (hjumps : e.kind = .breakLoop ∨ e.kind = .continueLoop → γ.jumps = true)
    (hcleanup : ∀ base index cleanup, e.kind = .rvalueArraySubscript base index cleanup →
      Declared m cleanup ∧ ∀ call ∈ cleanup.call?, m.Reached (.expr call))
    (hfuncs : ∀ func ∈ m.funcsOf e.kind, m.Reached (.func func))
    (hdest : Fits d dest) : Lowers strict m false γ d (Lowering.exprKind m w e dest) := by
  obtain ⟨kind, ty, category, cleanup⟩ := e
  unfold Lowering.exprKind
  cases kind with
  | variableRef x => exact .variableRef
  | functionRef func => exact .functionRef (hfuncs func List.mem_cons_self)
  | constant value => exact (Silently.constantValue hfuncs).lowers
  | valueReference index => exact .boundValue
  | unary op operand => exact .unary hw (hexprs _ (.head _))
  | binary op lhs rhs => exact .binary hw (hexprs _ (.head _)) (hexprs _ (.tail _ (.head _))) hdest
  | call func args order => exact .call hw hfuncs hexprs hdest
  | indirectCall callee args =>
    exact .indirectCall hw (hexprs _ (.head _)) (fun e he => hexprs e (.tail _ he)) hdest
  | cast inner => exact .castTo hw (hexprs _ (.head _))
  | bitCast inner => exact .bitCast hw (hexprs _ (.head _)) hdest
  | optionalCast inner => exact .optionalCast hw (hexprs _ (.head _)) hdest
  | takeReference inner | takeMoveReference inner =>
    exact .bind (hw.expr (hexprs _ (.head _)) .none) fun _ _ _ hv => .materialize hv
  | tuple es | aggregateInit es => exact .memberInit hw hexprs hdest
  | arrayValueInit value plan => exact .arrayValueInit hw (hexprs _ (.head _)) (hplan _ rfl) hdest
  | aggregateDefaultConstruct es => exact .aggregateDefault hw hexprs hdest
  | arrayDefaultConstruct plan => exact .arrayDefault hw (hplan _ rfl) hdest
  | optionalDefaultConstruct | builtinDefaultConstruct =>
    exact .bind Silently.valueType.lowers fun _ _ _ _ => .zeroValue
  | aggregateCopyConstruct source es | aggregateMoveConstruct source es =>
    exact .aggregateConstruct hw (hexprs _ (.head _)) (fun e he => hexprs e (.tail _ he)) hdest
  | arrayCopyConstruct source plan | arrayMoveConstruct source plan =>
    exact .arrayConstruct hw (hexprs _ (.head _)) (hplan _ rfl) hdest
  | optionalCopyConstruct source plan | optionalMoveConstruct source plan =>
    exact .optionalConstruct hw (hexprs _ (.head _)) (hexprs _ (.tail _ (.head _))) hdest
  | trivialCopyConstruct value | trivialRelocate value => exact .trivialCopy hw (hexprs _ (.head _))
  | aggregateDestruct value calls =>
    refine .bind .completeTypeOf fun _ _ _ _ => .bind (hw.expr (hexprs _ (.head _)) .none) fun _ _ _ hv => ?_
    exact .noValue (.memberDestructs hw hv fun e he => hexprs e (.tail _ he))
  | arrayDestruct value plan => exact .noValue (.arrayDestruct hw (hexprs _ (.head _)) (hplan _ rfl))
  | optionalDestruct value plan =>
    exact .noValue (.optionalDestruct hw (hexprs _ (.head _)) (hexprs _ (.tail _ (.head _))))
  | baseTypeDestruct value call calls =>
    refine .bind .completeTypeOf fun _ _ _ _ => .bind (hw.expr (hexprs _ (.head _)) .none) fun _ _ _ hv => ?_
    refine .bind (.destructorCall hw (fun e he => hexprs e (.tail _ ?_)) hv) fun _ _ g _ => ?_
    · exact List.mem_append_left _ (Option.mem_toList.2 he)
    · refine .noValue (.memberDestructs hw (g.fits hv) fun e he => hexprs e (.tail _ ?_))
      exact List.mem_append_right _ he
  | destructValue value call =>
    refine .bind (hw.expr (hexprs _ (.head _)) .none) fun _ _ _ hv => ?_
    exact .noValue (.destructorCall hw (fun e he => hexprs e (.tail _ (Option.mem_toList.2 he))) hv)
  | aggregateSwap lhs rhs es =>
    exact .noValue (.aggregateSwap hw (hexprs _ (.head _)) (hexprs _ (.tail _ (.head _)))
      fun e he => hexprs e (.tail _ (.tail _ he)))
  | arraySwap lhs rhs plan =>
    exact .noValue (.arraySwap hw (hexprs _ (.head _)) (hexprs _ (.tail _ (.head _))) (hplan _ rfl))
  | optionalSwap lhs rhs swapPlan leftPlan rightPlan =>
    exact .noValue (.optionalSwap hw (hexprs _ (.head _)) (hexprs _ (.tail _ (.head _)))
      (hexprs _ (by simp [ExprKind.exprs])) (hexprs _ (by simp [ExprKind.exprs]))
      (hexprs _ (by simp [ExprKind.exprs])))
  | baseTypeSwap lhs rhs leftPlan rightPlan tempPlan =>
    exact .noValue (.baseTypeSwap hw (hexprs _ (.head _)) (hexprs _ (.tail _ (.head _)))
      (hexprs _ (by simp [ExprKind.exprs])) (hexprs _ (by simp [ExprKind.exprs]))
      (hexprs _ (by simp [ExprKind.exprs])))
  | trivialSwap lhs rhs =>
    exact .noValue (.trivialSwap hw (hexprs _ (.head _)) (hexprs _ (.tail _ (.head _))))
  | aggregateAssign lhs rhs es =>
    exact .aggregateAssign hw (hexprs _ (.head _)) (hexprs _ (.tail _ (.head _)))
      fun e he => hexprs e (.tail _ (.tail _ he))
  | arrayAssign lhs rhs plan =>
    exact .arrayAssign hw (hexprs _ (.head _)) (hexprs _ (.tail _ (.head _))) (hplan _ rfl)
  | optionalAssign lhs rhs assignPlan constructPlan destructPlan =>
    exact .optionalAssign hw (hexprs _ (.head _)) (hexprs _ (.tail _ (.head _)))
      (hexprs _ (by simp [ExprKind.exprs])) (hexprs _ (by simp [ExprKind.exprs]))
      (hexprs _ (by simp [ExprKind.exprs]))
  | optionalNullAssign lhs rhs plan =>
    exact .optionalNullAssign hw (hexprs _ (.head _)) (hexprs _ (.tail _ (.head _)))
      fun e he => hexprs e (.tail _ (.tail _ (Option.mem_toList.2 he)))
  | optionalValueAssign lhs rhs assignPlan constructPlan =>
    exact .optionalValueAssign hw (hexprs _ (.head _)) (hexprs _ (.tail _ (.head _)))
      (hexprs _ (by simp [ExprKind.exprs])) (hexprs _ (by simp [ExprKind.exprs]))
  | optionalReferenceValueAssign lhs rhs =>
    exact .optionalReferenceAssign hw (hexprs _ (.head _)) (hexprs _ (.tail _ (.head _)))
  | baseTypeAssign lhs rhs destructPlan copyPlan =>
    exact .baseTypeAssign hw (hexprs _ (.head _)) (hexprs _ (.tail _ (.head _)))
      (hexprs _ (by simp [ExprKind.exprs])) (hexprs _ (by simp [ExprKind.exprs]))
  | trivialAssign lhs rhs =>
    exact .trivialAssign hw (hexprs _ (.head _)) (hexprs _ (.tail _ (.head _)))
  | memberAccess base index => exact .memberAccess hw (hexprs _ (.head _))
  | rvalueMemberAccess base index es =>
    exact .rvalueMemberAccess hw (hexprs _ (.head _)) (fun e he => hexprs e (.tail _ he)) hdest
  | optionalExtractValue optional plan =>
    exact .optionalExtract hw (hexprs _ (.head _))
      (fun e he => hexprs e (.tail _ (Option.mem_toList.2 he))) hdest
  | subscript base index => exact .subscript hw (hexprs _ (.head _)) (hexprs _ (.tail _ (.head _)))
  | rvalueArraySubscript base index cleanup =>
    obtain ⟨hdeclared, hcall⟩ := hcleanup base index cleanup rfl
    exact .rvalueArraySubscript hw (hexprs _ (.head _)) (hexprs _ (.tail _ (.head _))) hdeclared hcall
  | tupleSubscript es index => exact .tupleSubscript hw hexprs hdest
  | rvalueTupleSubscript base index es =>
    exact .rvalueTupleSubscript hw (hexprs _ (.head _)) (fun e he => hexprs e (.tail _ he)) hdest
  | compound stmts final =>
    exact .compound hw ha hstmts (fun e he => hexprs e (Option.mem_toList.2 he)) hdest
  | ifElse test thenBlock elseBlock =>
    exact .ifElse hw (hexprs _ (.head _)) (hexprs _ (.tail _ (.head _)))
      (fun e he => hexprs e (.tail _ (.tail _ (Option.mem_toList.2 he)))) hdest
  | ifDecided test thenBlock elseBlock =>
    dsimp only
    split
    · next block hblock =>
      refine hw.expr (hexprs block ?_) hdest
      cases test with
      | true => cases hblock; exact .head _
      | false => exact .tail _ (Option.mem_toList.2 hblock)
    · exact .pure (.of_nil rfl)
  | switch matched cases default isComplete =>
    refine .switchOn hw (hexprs _ (.head _)) (fun c hc => hexprs c.expr (.tail _ ?_))
      (fun c hc func hfunc => hfuncs func (List.mem_flatMap.2 ⟨c, hc, hfunc⟩))
      (fun e he => hexprs e (.tail _ ?_)) hdest
    · exact List.mem_append_left _ (List.mem_map_of_mem hc)
    · exact List.mem_append_right _ (Option.mem_toList.2 he)
  | breakLoop => exact .noValue (.breakLoop hw ha (hjumps (.inl rfl)))
  | continueLoop => exact .noValue (.continueLoop hw ha (hjumps (.inr rfl)))
  | unreachable => exact .noValue .unreachable

theorem storeResult (hv : Fits d v) (hdest : Fits d dest) :
    Lowers strict m bal γ d (Lowering.storeResult v dest) := by
  unfold Lowering.storeResult
  split
  · next dest =>
    have hdest : Fits d dest := hdest
    split
    · exact .pure hv
    · exact .whenNot (fun _ => .assign hdest hv) fun _ g => .pure (g.fits hdest)
  · exact .pure hv

/-- The cleanup of a temporary begins to wait, and its expression has been evaluated. -/
theorem evaluated {e : Expr} (hc : OfExpr m e.cleanup)
    (hreached : ∀ call ∈ e.cleanup.call?, m.Reached (.expr call)) (hv : Fits d v) :
    Lowers strict m false γ d (do
      let value ← Lowering.addOwnCleanup e v
      Emit.note (.evaluates e.cleanup)
      Pure.pure value) := by
  -- a temporary, whose cleanup may have nothing to do
  have hwaits {v v' : Value} {d : Draft} (hv : Fits d v) (hv' : Fits d v') :
      Lowers strict m false γ d (do
        Emit.addTemporaryCleanup e.cleanup v'
        Emit.note (.evaluates e.cleanup)
        Pure.pure v) := by
    intro hd
    have hadd : Ensures d (Emit.addTemporaryCleanup e.cleanup v') _ :=
      .addCleanup (.inl hc) hv' .none (by rintro _ ⟨⟩) (by rintro _ ⟨⟩) hreached hd
    refine .bind hadd fun _ d₁ h => ?_
    obtain ⟨-, hnone, rfl⟩ | ⟨p, hp, -, howner, hindicator, h₁⟩ := h
    · refine .bind (.note hd nofun) fun _ d₂ h₂ => ?_
      have g₂ : Grows strict m false γ d d₂ := by
        refine h₂.grows (.evaluates hc fun x hx => .inl ?_) nofun
        rw [Control.indicatorOf, hx] at hnone
        exact hnone
      exact .pure ⟨g₂, g₂.fits hv⟩
    · refine .bind (.note h₁.made nofun) fun _ d₂ h₂ => ?_
      have h := h₁.trans h₂
      rw [h₁.control] at h
      rw [← hp] at hc hindicator h
      have g₂ : Grows strict m false γ d d₂ := h.grows (.evaluatesWaiting hc howner hindicator) nofun
      exact .pure ⟨g₂, g₂.fits hv⟩
  unfold Lowering.addOwnCleanup
  split
  · next elem haction =>
    intro hd
    refine .pure_bind (.bind (.note hd nofun) fun _ d₂ h₂ => ?_)
    have g₂ : Grows strict m false γ d d₂ := by
      refine h₂.grows (.evaluates hc fun x hx => .inr ?_) nofun
      simp [isArrayRest, haction]
    exact .pure ⟨g₂, g₂.fits hv⟩
  · split
    · simp only [bind_assoc, pure_bind]
      exact hwaits hv (.of_nil rfl)
    · simp only [bind_assoc, pure_bind]
      exact .bind (.materialize hv) fun _ _ _ hv => hwaits hv hv
  all_goals
    simp only [bind_assoc, pure_bind]
    exact hwaits hv (.of_nil rfl)

/-- An expression with its destination and its cleanup. -/
theorem exprNode (hw : w.Sound strict m) (hm : Tidy strict m) {id : ExprId}
    (h : Allowed strict m γ (.expr id)) (hdest : Fits d dest) :
    Lowers strict m false γ d (Lowering.exprNode m w id dest) := by
  refine .lift fun e he => ?_
  have he : m.expr? id = some e := eq_some_of_inRange he
  have hexprs : ∀ x ∈ e.kind.exprs, Allowed strict m γ (.expr x) := fun x hx => h.child (by
    simp only [Module.exposed, Module.children, he]
    exact List.mem_append_left _ (List.mem_map_of_mem hx))
  have hstmts : ∀ s ∈ e.kind.stmts, Allowed strict m γ (.stmt s) := fun s hs => h.child (by
    simp only [Module.exposed, Module.children, he]
    exact List.mem_append_right _ (List.mem_map_of_mem hs))
  have hplan : ∀ x ∈ e.kind.elementPlan?, Allowed strict m (γ.inElements strict) (.expr x) :=
    fun x hx => .inElements hm he hx (hexprs x (mem_exprs_of_elementPlan? hx))
  have hjumps : e.kind = .breakLoop ∨ e.kind = .continueLoop → γ.jumps = true :=
    fun hk => h.jumps _ .refl ⟨e, he, hk⟩
  have hdest : Fits d (if e.category == .noreturn then none else dest) := by
    split
    · exact .none
    · exact hdest
  have hitems := h.reached.ofExpr he
  refine .bind (.exprKind hw h.admits hexprs hstmts hplan hjumps ?_ ?_ hdest) fun v _ g hv => ?_
  · refine fun base index cleanup hk => ⟨.ofElement he hk, fun call hcall => hitems _ ?_⟩
    simp [Module.itemsOf, ExprKind.elementCleanup?, hk, Option.mem_def.1 hcall]
  · exact fun func hfunc => hitems _ (List.mem_append_right _ (List.mem_map_of_mem hfunc))
  · refine .bind (.storeResult hv (g.fits hdest)) fun _ _ _ hv => .evaluated ⟨id, e, he, rfl⟩ ?_ hv
    exact fun call hcall => hitems _ (by simp [Module.itemsOf, Option.mem_def.1 hcall])

end Lowers

/-! ### The walk through a module -/

namespace Lowering.Walk.Sound

/-- Nodes that are nested at most to a depth. -/
theorem walk (hm : Tidy strict m) : ∀ depth, (Lowering.walk m depth).Sound strict m
  | 0 => ⟨fun _ _ => .throw, fun _ => .throw, fun _ _ _ _ => .throw⟩
  | depth + 1 =>
    { expr := fun h hdest => .exprNode (walk hm depth) hm h hdest
      stmt := fun h => .lift fun _ hs => .stmt (walk hm depth) (eq_some_of_inRange hs) h
      cleanup := fun ha hp hfits hd => (walk hm depth).runCleanup hm ha hp hfits hd }

/-- The nodes of a module. -/
theorem ofModule (hm : Tidy strict m) : (Walk.ofModule m).Sound strict m :=
  walk hm _

end Lowering.Walk.Sound

end CBackend
