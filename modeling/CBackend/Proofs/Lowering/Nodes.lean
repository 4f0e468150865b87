import CBackend.Proofs.Emission.Basic
import Mathlib.Logic.Relation

/-!
# The exits that nodes contain

The nodes below a node, and which of them leave a loop or the function. A cleanup is not below the
expression or the declaration that it belongs to, since it is written where its scope ends.
-/

namespace CBackend.IR

/-- An expression or a statement of a module. -/
inductive Node
  | expr (id : ExprId)
  | stmt (id : StmtId)

variable {n n' : Node} {func : FuncId}

/-- The expressions right below one of a kind. -/
def ExprKind.exprs : ExprKind → List ExprId
  | variableRef _ | functionRef _ | constant _ | valueReference _ | optionalDefaultConstruct
  | builtinDefaultConstruct | breakLoop | continueLoop | unreachable => []
  | unary _ e | cast e | bitCast e | optionalCast e | takeReference e | takeMoveReference e
  | arrayDefaultConstruct e | trivialCopyConstruct e | trivialRelocate e | memberAccess e _ => [e]
  | binary _ e₁ e₂ | arrayValueInit e₁ e₂ | arrayCopyConstruct e₁ e₂ | arrayMoveConstruct e₁ e₂
  | optionalCopyConstruct e₁ e₂ | optionalMoveConstruct e₁ e₂ | arrayDestruct e₁ e₂
  | optionalDestruct e₁ e₂ | trivialSwap e₁ e₂ | optionalReferenceValueAssign e₁ e₂
  | trivialAssign e₁ e₂ | subscript e₁ e₂ | rvalueArraySubscript e₁ e₂ _ => [e₁, e₂]
  | arraySwap e₁ e₂ e₃ | arrayAssign e₁ e₂ e₃ => [e₁, e₂, e₃]
  | optionalValueAssign e₁ e₂ e₃ e₄ | baseTypeAssign e₁ e₂ e₃ e₄ => [e₁, e₂, e₃, e₄]
  | optionalSwap e₁ e₂ e₃ e₄ e₅ | baseTypeSwap e₁ e₂ e₃ e₄ e₅ | optionalAssign e₁ e₂ e₃ e₄ e₅ =>
    [e₁, e₂, e₃, e₄, e₅]
  | call _ es _ | tuple es | aggregateInit es | aggregateDefaultConstruct es
  | tupleSubscript es _ => es
  | indirectCall e es | aggregateCopyConstruct e es | aggregateMoveConstruct e es => e :: es
  | aggregateSwap e₁ e₂ es | aggregateAssign e₁ e₂ es => e₁ :: e₂ :: es
  | optionalNullAssign e₁ e₂ e₃ => e₁ :: e₂ :: e₃.toList
  | destructValue e e' | optionalExtractValue e e' => e :: e'.toList
  | aggregateDestruct e es | rvalueMemberAccess e _ es | rvalueTupleSubscript e _ es =>
    e :: es.reduceOption
  | baseTypeDestruct e e' es => e :: (e'.toList ++ es.reduceOption)
  | compound _ e => e.toList
  | ifElse e₁ e₂ e₃ => e₁ :: e₂ :: e₃.toList
  | ifDecided _ e₁ e₂ => e₁ :: e₂.toList
  | switch e cases default _ => e :: (cases.map (·.expr) ++ default.toList)

/-- The statements right below an expression of a kind. -/
def ExprKind.stmts : ExprKind → List StmtId
  | compound stmts _ => stmts
  | _ => []

/-- The expression that is lowered once for every element of an array. -/
def ExprKind.elementPlan? : ExprKind → Option ExprId
  | arrayValueInit _ e | arrayDefaultConstruct e | arrayCopyConstruct _ e | arrayMoveConstruct _ e
  | arrayDestruct _ e | arraySwap _ _ e | arrayAssign _ _ e => some e
  | _ => none

/-- The expression that a cleanup runs. -/
def Cleanup.call? (c : Cleanup) : Option ExprId :=
  match c.action with
  | .ofVariable e | .ofTemporary e | .deferred e | .arrayRest e => some e
  | .none | .trivial => none

namespace Module

variable (m : Module)

/-- The initial value of a variable. -/
def initOf (x : VarId) : List ExprId :=
  ((m.var? x).bind (·.init)).toList

/-- The expressions right below a statement. -/
def exprsOf : Stmt → List ExprId
  | .whileLoop test body => [test, body]
  | .forLoop _ test iteration body => test.toList ++ iteration.toList ++ [body]
  | .foreachLoop range iter last test iteration element body =>
    [range, iter, last, element].flatMap m.initOf ++ [test, iteration, body]
  | .returnWith e => e.toList
  | .expression e => [e]
  | .varDecl x => m.initOf x
  | .defer _ | .noOp | .staticAssert => []

/-- The nodes right below a node. -/
def children : Node → List Node
  | .expr id =>
    match m.expr? id with
    | some e => e.kind.exprs.map .expr ++ e.kind.stmts.map .stmt
    | none => []
  | .stmt id =>
    match m.stmt? id with
    | some (.forLoop init test iteration body) =>
      init.toList.map .stmt ++ (m.exprsOf (.forLoop init test iteration body)).map .expr
    | some s => (m.exprsOf s).map .expr
    | none => []

/-- The iteration expression of a loop. -/
def iteration? : Stmt → Option ExprId
  | .forLoop _ _ iteration _ => iteration
  | .foreachLoop _ _ _ _ iteration _ _ => some iteration
  | _ => none

/-- The nodes right below a node and in no loop of it. -/
def exposed : Node → List Node
  | .expr id => m.children (.expr id)
  | .stmt id =>
    match m.stmt? id with
    | some (.whileLoop _ _) => []
    | some (.forLoop init _ _ _) => init.toList.map .stmt
    | some (.foreachLoop range iter last _ _ _ _) => ([range, iter, last].flatMap m.initOf).map .expr
    | _ => m.children (.stmt id)

theorem exposed_subset (n : Node) : m.exposed n ⊆ m.children n := by
  cases n with
  | expr id => exact List.Subset.refl _
  | stmt id =>
    simp only [exposed]
    split
    · exact List.nil_subset _
    · next h =>
      simp only [children, h]
      exact List.subset_append_left _ _
    · next h =>
      simp only [children, h, exprsOf]
      refine List.map_subset _ fun e he => List.mem_append_left _ ?_
      simp only [List.mem_flatMap] at he ⊢
      obtain ⟨x, hx, he⟩ := he
      exact ⟨x, by simp at hx ⊢; tauto, he⟩
    · exact List.Subset.refl _

end Module

namespace Node

/-- A node is another one or lies below it. -/
def Below (m : Module) : Node → Node → Prop :=
  Relation.ReflTransGen fun n n' => n' ∈ m.children n

/-- A node is another one or lies below it, in no loop below it. -/
def Exposes (m : Module) : Node → Node → Prop :=
  Relation.ReflTransGen fun n n' => n' ∈ m.exposed n

theorem Exposes.below {m : Module} (h : Exposes m n n') : Below m n n' :=
  Relation.ReflTransGen.mono (fun n _ hn => m.exposed_subset n hn) _ _ h

/-- Below a node that has no parts outside of loops there is only the node itself. -/
theorem Exposes.eq_of_exposed_eq_nil {m : Module} (h : Exposes m n n') (hn : m.exposed n = []) : n' = n := by
  cases h.cases_head with
  | inl h => exact h.symm
  | inr h =>
    obtain ⟨n₁, hn₁, -⟩ := h
    cases hn ▸ hn₁

/-- A node is a `break` or a `continue`. -/
def Jumps (m : Module) : Node → Prop
  | .expr id => ∃ e, m.expr? id = some e ∧ (e.kind = .breakLoop ∨ e.kind = .continueLoop)
  | .stmt _ => False

/-- A node is a `return`. -/
def Returns (m : Module) : Node → Prop
  | .expr _ => False
  | .stmt id => ∃ value, m.stmt? id = some (.returnWith value)

/-- No `break` or `continue` leaves a node: those below it are in loops below it. -/
def JumpFree (m : Module) (n : Node) : Prop :=
  ∀ n', Exposes m n n' → ¬ n'.Jumps m

end Node

namespace Module

variable (m : Module)

/-- No cleanup of a module contains a `return`, a `break` or a `continue`. -/
def CleanupsExitFree : Prop :=
  ∀ cleanup, Emission.OfExpr m cleanup ∨ Emission.Declared m cleanup →
    ∀ call ∈ cleanup.call?, ∀ n, Node.Below m (.expr call) n → ¬ n.Jumps m ∧ ¬ n.Returns m

/-- No plan for the elements of an array contains a `break` or a `continue`. -/
def PlansJumpFree : Prop :=
  ∀ id e, m.expr? id = some e →
    ∀ plan ∈ e.kind.elementPlan?, ∀ n, Node.Below m (.expr plan) n → ¬ n.Jumps m

/-- No `break` or `continue` leaves a cleanup, a plan for the elements of an array or an iteration
expression. -/
structure JumpsConfined : Prop where
  cleanups : ∀ cleanup, Emission.OfExpr m cleanup ∨ Emission.Declared m cleanup →
    ∀ call ∈ cleanup.call?, Node.JumpFree m (.expr call)
  plans : ∀ id e, m.expr? id = some e →
    ∀ plan ∈ e.kind.elementPlan?, Node.JumpFree m (.expr plan)
  iterations : ∀ id s, m.stmt? id = some s → ∀ e ∈ iteration? s, Node.JumpFree m (.expr e)

end Module

/-! ### What a module reaches -/

/-- An expression, a statement, a variable or a function of a module. -/
inductive Item
  | expr (id : ExprId)
  | stmt (id : StmtId)
  | var (id : VarId)
  | func (id : FuncId)
  deriving DecidableEq

mutual

/-- The functions whose addresses are in a constant. -/
def Const.funcs : Const → List FuncId
  | .function func => [func]
  | .array vs | .tuple vs | .aggregate vs => Const.funcsOf vs
  | _ => []

/-- The functions whose addresses are in the constants of a list. -/
def Const.funcsOf : List Const → List FuncId
  | [] => []
  | v :: vs => v.funcs ++ Const.funcsOf vs

end

theorem Const.mem_funcsOf {value : Const} {values : List Const} (hvalue : value ∈ values) (h : func ∈ value.funcs) :
    func ∈ Const.funcsOf values := by
  induction values with
  | nil => cases hvalue
  | cons v vs ih =>
    obtain rfl | hvalue := List.mem_cons.1 hvalue
    · exact List.mem_append_left _ h
    · exact List.mem_append_right _ (ih hvalue)

/-- The cleanup that an expression of a kind makes wait besides its own. -/
def ExprKind.elementCleanup? : ExprKind → Option Cleanup
  | .rvalueArraySubscript _ _ cleanup => some cleanup
  | _ => none

/-- What a statement refers to. -/
def Stmt.items : Stmt → List Item
  | .whileLoop test body => [.expr test, .expr body]
  | .forLoop init test iteration body =>
    init.toList.map .stmt ++ (test.toList ++ iteration.toList ++ [body]).map .expr
  | .foreachLoop range iter last test iteration element body =>
    [range, iter, last, element].map .var ++ [test, iteration, body].map .expr
  | .returnWith e => e.toList.map .expr
  | .defer cleanup => cleanup.call?.toList.map .expr
  | .expression e => [.expr e]
  | .varDecl x => [.var x]
  | .noOp | .staticAssert => []

/-- What a variable refers to. -/
def VarDecl.items (decl : VarDecl) : List Item :=
  (decl.init.toList ++ decl.destruction.call?.toList).map .expr ++ decl.tupleDecls.map .var

/-- What a function refers to. -/
def Function.items (f : Function) : List Item :=
  if f.libraryHeader.isSome then [] else f.params.map .var ++ (f.body.getD []).map .stmt

namespace Module

variable (m : Module)

/-- The functions that an expression of a kind names. -/
def funcsOf : ExprKind → List FuncId
  | .functionRef func => [func]
  | .call func _ _ => if (m.function? func).any (·.isIntrinsic) then [] else [func]
  | .constant value => value.funcs
  | .switch _ cases _ _ => cases.flatMap fun c => Const.funcsOf c.values
  | _ => []

/-- What an expression refers to. -/
def itemsOf (e : Expr) : List Item :=
  (e.kind.exprs ++ e.cleanup.call?.toList ++ (e.kind.elementCleanup?.bind Cleanup.call?).toList).map .expr ++
    e.kind.stmts.map .stmt ++ (m.funcsOf e.kind).map .func

/-- What an item refers to. -/
def references : Item → List Item
  | .expr id => ((m.expr? id).map m.itemsOf).getD []
  | .stmt id => ((m.stmt? id).map Stmt.items).getD []
  | .var id => ((m.var? id).map VarDecl.items).getD []
  | .func id => ((m.function? id).map Function.items).getD []

/-- Where a module starts from: its globals, the functions that are kept and the entry. -/
def sources : List Item :=
  m.globals.toList.map .var ++ m.roots.toList.map .func ++ m.entry.toList.map .func

/-- What a module reaches. -/
inductive Reached : Item → Prop
  | source {a : Item} (h : a ∈ m.sources) : Reached a
  | step {a b : Item} (h : Reached a) (hb : b ∈ m.references a) : Reached b

variable {m}

namespace Reached

theorem ofExpr {id : ExprId} {e : Expr} (h : m.Reached (.expr id)) (he : m.expr? id = some e) :
    ∀ a ∈ m.itemsOf e, m.Reached a :=
  fun a ha => .step h (by simpa [references, he] using ha)

theorem ofStmt {id : StmtId} {s : Stmt} (h : m.Reached (.stmt id)) (hs : m.stmt? id = some s) :
    ∀ a ∈ s.items, m.Reached a :=
  fun a ha => .step h (by simpa [references, hs] using ha)

theorem ofVar {id : VarId} {decl : VarDecl} (h : m.Reached (.var id)) (hdecl : m.var? id = some decl) :
    ∀ a ∈ decl.items, m.Reached a :=
  fun a ha => .step h (by simpa [references, hdecl] using ha)

theorem ofFunc {id : FuncId} {f : Function} (h : m.Reached (.func id)) (hf : m.function? id = some f) :
    ∀ a ∈ f.items, m.Reached a :=
  fun a ha => .step h (by simpa [references, hf] using ha)

theorem ofGlobal {x : VarId} (h : x ∈ m.globals) : m.Reached (.var x) :=
  .source (by simp [sources, h])

theorem ofRoot (h : func ∈ m.roots) : m.Reached (.func func) :=
  .source (by simp [sources, h])

theorem ofEntry (h : m.entry = some func) : m.Reached (.func func) :=
  .source (by simp [sources, h])

end Reached

end Module

/-- A node as an item. -/
def Node.item : Node → Item
  | expr id => .expr id
  | stmt id => .stmt id

namespace Module.Reached

variable {m : Module}

theorem initOf {x : VarId} (h : m.Reached (.var x)) : ∀ e ∈ m.initOf x, m.Reached (.expr e) := by
  intro e he
  obtain ⟨decl, hdecl, hinit⟩ := Option.bind_eq_some_iff.1 (Option.mem_toList.1 he)
  exact h.ofVar hdecl _ (by simp [VarDecl.items, hinit])

theorem exprsOf {s : Stmt} (h : ∀ a ∈ s.items, m.Reached a) : ∀ e ∈ m.exprsOf s, m.Reached (.expr e) := by
  cases s with
  | foreachLoop range iter last test iteration element body =>
    intro e he
    obtain he | he := List.mem_append.1 he
    · obtain ⟨x, hx, he⟩ := List.mem_flatMap.1 he
      exact initOf (h _ (List.mem_append_left _ (List.mem_map_of_mem hx))) e he
    · exact h _ (List.mem_append_right _ (List.mem_map_of_mem he))
  | varDecl x => exact initOf (h _ List.mem_cons_self)
  | forLoop => exact fun e he => h _ (List.mem_append_right _ (List.mem_map_of_mem he))
  | _ => exact fun e he => h _ (by simp_all [Module.exprsOf, Stmt.items])

/-- What is right below a node. -/
theorem child (h : m.Reached n.item) (hn : n' ∈ m.children n) : m.Reached n'.item := by
  cases n with
  | expr id =>
    simp only [children] at hn
    split at hn
    · next e he =>
      have hitems := h.ofExpr he
      obtain hn | hn := List.mem_append.1 hn <;> obtain ⟨a, ha, rfl⟩ := List.mem_map.1 hn
      · exact hitems _ (by simp [itemsOf, Node.item, ha])
      · exact hitems _ (by simp [itemsOf, Node.item, ha])
    · cases hn
  | stmt id =>
    simp only [children] at hn
    split at hn
    · next hs =>
      have hitems := h.ofStmt hs
      obtain hn | hn := List.mem_append.1 hn <;> obtain ⟨a, ha, rfl⟩ := List.mem_map.1 hn
      · exact hitems _ (List.mem_append_left _ (List.mem_map_of_mem ha))
      · exact exprsOf hitems a ha
    · next hs =>
      obtain ⟨a, ha, rfl⟩ := List.mem_map.1 hn
      exact exprsOf (h.ofStmt hs) a ha
    · cases hn

end Module.Reached

end CBackend.IR

namespace CBackend.Emission

open IR

/-- The exits that a piece may contain are those that cleanups may need, which can be written anywhere.
Where pieces need not be strict, a cleanup may return, and unless `break` and `continue` are confined it
may contain those as well. -/
structure Admits (strict : Bool) (m : Module) (γ : Exits) : Prop where
  returns : strict = false → γ.returns = true
  jumps : strict = false → γ.confined = false → γ.jumps = true
  confined : γ.confined = true → m.JumpsConfined

/-- A node is reached, and the exits below it are among those that a piece may contain. -/
structure Allowed (strict : Bool) (m : Module) (γ : Exits) (n : Node) : Prop where
  reached : m.Reached n.item
  admits : Admits strict m γ
  jumps : ∀ n', Node.Exposes m n n' → n'.Jumps m → γ.jumps = true
  returns : ∀ n', Node.Below m n n' → n'.Returns m → γ.returns = true

/-- In strict pieces, cleanups have no exits, and plans for elements none of a loop. -/
def Tidy (strict : Bool) (m : Module) : Prop :=
  strict = true → m.CleanupsExitFree ∧ m.PlansJumpFree

variable {strict : Bool} {m : Module} {γ : Exits} {n n' : Node}

namespace Admits

theorem all : Admits strict m .all :=
  ⟨fun _ => rfl, fun _ _ => rfl, nofun⟩

theorem inElements (h : Admits strict m γ) : Admits strict m (γ.inElements strict) :=
  ⟨h.returns, fun hs hc => Exits.inElements_jumps.2 ⟨h.jumps hs hc, hs, hc⟩, h.confined⟩

theorem inCleanup (h : Admits strict m γ) : Admits strict m (γ.inCleanup strict) :=
  ⟨fun hs => Exits.inCleanup_returns.2 ⟨h.returns hs, hs⟩, h.inElements.jumps, h.confined⟩

end Admits

namespace Allowed

/-- Every exit is allowed anywhere in a function. -/
theorem all (h : m.Reached n.item) : Allowed strict m .all n :=
  ⟨h, .all, fun _ _ _ => rfl, fun _ _ _ => rfl⟩

/-- A node in no loop of the node above. -/
theorem child (h : Allowed strict m γ n) (hn : n' ∈ m.exposed n) : Allowed strict m γ n' :=
  ⟨h.reached.child (m.exposed_subset n hn), h.admits, fun n'' hn'' => h.jumps n'' (.head hn hn''),
    fun n'' hn'' => h.returns n'' (.head (m.exposed_subset n hn) hn'')⟩

/-- A node in a loop. -/
theorem inLoop (h : Allowed strict m γ n) (hn : n' ∈ m.children n) : Allowed strict m γ.inLoop n' :=
  ⟨h.reached.child hn, ⟨h.admits.returns, fun _ _ => rfl, h.admits.confined⟩, fun _ _ _ => rfl,
    fun n'' hn'' => h.returns n'' (.head hn hn'')⟩

/-- The iteration expression of a loop. -/
theorem inIteration {id : StmtId} {s : Stmt} {e : ExprId} (h : Allowed strict m γ (.stmt id))
    (hn : .expr e ∈ m.children (.stmt id)) (hs : m.stmt? id = some s)
    (he : Module.iteration? s = some e) : Allowed strict m γ.inIteration (.expr e) where
  reached := h.reached.child hn
  admits := by
    refine ⟨h.admits.returns, fun _ hc => ?_, h.admits.confined⟩
    exact congrArg not hc
  jumps n' hn' hjumps := by
    cases hc : γ.confined with
    | false => exact congrArg not hc
    | true => exact absurd hjumps ((h.admits.confined hc).iterations id s hs e he n' hn')
  returns n'' hn'' := h.returns n'' (.head hn hn'')

/-- The plan for the elements of an array. -/
theorem inElements (hm : Tidy strict m) {id plan : ExprId} {e : Expr} (he : m.expr? id = some e)
    (hplan : e.kind.elementPlan? = some plan) (h : Allowed strict m γ (.expr plan)) :
    Allowed strict m (γ.inElements strict) (.expr plan) where
  reached := h.reached
  admits := h.admits.inElements
  jumps n' hn' hjumps := by
    refine Exits.inElements_jumps.2 ⟨h.jumps n' hn' hjumps, ?_, ?_⟩
    · by_contra hs
      exact (hm (Bool.of_not_eq_false hs)).2 id e he plan hplan n' hn'.below hjumps
    · by_contra hc
      exact (h.admits.confined (Bool.of_not_eq_false hc)).plans id e he plan hplan n' hn' hjumps
  returns := h.returns

/-- The expression that a cleanup runs. -/
theorem inCleanup (hm : Tidy strict m) (ha : Admits strict m γ) {cleanup : Cleanup}
    (hc : OfExpr m cleanup ∨ Declared m cleanup) {call : ExprId} (hcall : cleanup.call? = some call)
    (h : m.Reached (.expr call)) : Allowed strict m (γ.inCleanup strict) (.expr call) where
  reached := h
  admits := ha.inCleanup
  jumps n' hn' hjumps := by
    have hconfined : γ.confined = false := by
      by_contra hne
      exact (ha.confined (Bool.of_not_eq_false hne)).cleanups cleanup hc call hcall n' hn' hjumps
    have hs : strict = false := by
      by_contra hne
      exact ((hm (Bool.of_not_eq_false hne)).1 cleanup hc call hcall n' hn'.below).1 hjumps
    exact Exits.inCleanup_jumps.2 ⟨ha.jumps hs hconfined, hs, hconfined⟩
  returns n' hn' hreturns := by
    have hs : strict = false := by
      by_contra hne
      exact ((hm (Bool.of_not_eq_false hne)).1 cleanup hc call hcall n' hn').2 hreturns
    exact Exits.inCleanup_returns.2 ⟨ha.returns hs, hs⟩

end Allowed

end CBackend.Emission
