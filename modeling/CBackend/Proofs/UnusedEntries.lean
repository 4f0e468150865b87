import CBackend.Proofs.Bracketing.Functions
import CBackend.Proofs.Linkage.Modules

/-!
# Entries that nothing refers to

What a module does not get to from its globals, its kept functions and its entry has no part in its C file. Appending
entries of any kind to the tables of a module changes nothing: every look-up, convention, name and bound of the run on
the module comes out in the same way, and the loop over the queued functions ends by itself before the larger number of
functions allows.

## Main results

* `Drains.extend`, `Drains.drainQueue_eq` : the loop over the queued functions.
* `generateDraft_of_extendedBy` : the draft of a longer module.
* `unused_entries_change_nothing` : the text of a longer module.
-/

namespace CBackend

open IR

variable {m m' : Module} {w w' : Lowering.Walk} {d d' : Draft} {options : Options}

/-- The loop does in the same rounds the same in a longer module. -/
theorem Drains.extend (hw : w.Bracketed true m m' w') (hd : d.Consistent) {n : Nat} (h : Drains m w d n d') :
    Drains m' w' d n d' ∧ d'.Consistent := by
  induction h with
  | done h => exact ⟨.done h, hd⟩
  | @next d _ _ func rest _ h hbody _ ih =>
    have hrun := @Orderly.functionBody m m' w w' hw func { d with queue := rest } { hd with }
    obtain ⟨hdrains, hd'⟩ := ih (hrun.ok _ _ hbody)
    exact ⟨.next h (hrun.harmless.again _ hbody) hdrains, hd'⟩

/-- A round of the loop with an empty queue ends it. -/
theorem drainQueue_of_nil (h : d.queue = []) (k : Nat) : Lowering.drainQueue m w (k + 1) d = .ok ((), d) := by
  cases d
  cases h
  rfl

/-- A round of the loop writes the body of the first function. -/
theorem drainQueue_of_cons {func : FuncId} {rest : List FuncId} (h : d.queue = func :: rest) (k : Nat) :
    Lowering.drainQueue m w (k + 1) d =
      (Lowering.functionBody m w func { d with queue := rest } >>= fun r => Lowering.drainQueue m w k r.2) := by
  cases d
  cases h
  rfl

/-- The loop ends by itself, if it may go on for long enough. -/
theorem Drains.drainQueue_eq {n k : Nat} (h : Drains m w d n d') (hk : n ≤ k) :
    Lowering.drainQueue m w k d = .ok ((), d') := by
  induction h generalizing k with
  | done h =>
    cases k with
    | zero => rfl
    | succ k => exact drainQueue_of_nil h k
  | next h hbody _ ih =>
    obtain ⟨k, rfl⟩ := Nat.exists_eq_add_of_le' hk
    rw [← Nat.add_assoc, drainQueue_of_cons h, hbody]
    exact ih (by omega)

/-- The draft of a module is the draft of every longer one. -/
theorem generateDraft_of_extendedBy (hm : m.ExtendedBy m') (h : generateDraft m options = .ok d) :
    generateDraft m' options = .ok d := by
  obtain ⟨d₀, d₁, d₂, hstages, -, -, hemitted⟩ := exists_stages h
  have hd₀ : d₀.Consistent := (Draft.harmless_new options).2 _ hstages.new
  have hsources := Orderly.requestSources hm d₀ hd₀
  have hw : (Lowering.Walk.ofModule m).Bracketed true m m' (Lowering.Walk.ofModule m') :=
    Lowering.walk_bracketed_extend hm hm.nestingBound_le
  obtain ⟨hdrains, hd₂⟩ := hstages.drains.extend hw (hsources.ok _ _ hstages.sources)
  have hrounds : (d.defined m).length ≤ m'.functions.size :=
    hemitted.length_le.trans (by simpa using hm.functions.length_le)
  have hdrain := hdrains.drainQueue_eq hrounds
  have hrun : Lowering.wholeModule m' d₀ = .ok ((), d) := by
    rw [Lowering.wholeModule_eq]
    change (Lowering.requestSources m' d₀ >>= fun r => (Lowering.drainQueue m' _ _ r.2 >>= fun r =>
      Lowering.addMain m' r.2)) = _
    rw [hsources.harmless.again _ hstages.sources]
    change (Lowering.drainQueue m' _ _ d₁ >>= fun r => Lowering.addMain m' r.2) = _
    rw [hdrain]
    exact (Orderly.addMain hm d₂ hd₂).harmless.again _ hstages.main
  unfold generateDraft
  rw [hstages.new]
  change (Lowering.wholeModule m' d₀ >>= fun r => pure r.2) = _
  rw [hrun]
  rfl

/-- A module to whose tables entries are appended has the same C file. -/
theorem unused_entries_change_nothing {text : String} (hm : m.ExtendedBy m') (h : generate m options = .ok text) :
    generate m' options = .ok text := by
  obtain ⟨unit, hunit, htext⟩ := exists_of_bind_eq_ok h
  obtain ⟨d, hdraft, hd⟩ := exists_of_bind_eq_ok hunit
  unfold generate generateUnit
  rw [generateDraft_of_extendedBy hm hdraft]
  cases hd
  exact htext

/-- A global, and two functions that call each other with it. -/
def pingPong : Module where
  exprs := #[{ kind := .constant (.sint 1), ty := .builtin .i32, category := .rvalue },
    { kind := .variableRef ⟨0⟩, ty := .builtin .i32, category := .lvalue },
    { kind := .variableRef ⟨1⟩, ty := .builtin .i32, category := .lvalue },
    { kind := .call ⟨1⟩ [⟨1⟩] .regular, ty := .void, category := .none },
    { kind := .call ⟨0⟩ [⟨2⟩] .regular, ty := .void, category := .none }]
  stmts := #[.expression ⟨3⟩, .expression ⟨4⟩]
  vars := #[{ name := "one", ty := .builtin .i32, init := some ⟨0⟩, isGlobal := true },
    { name := "n", ty := .builtin .i32 }, { name := "n", ty := .builtin .i32 }]
  functions := #[{ name := "ping", params := [⟨2⟩], result := .void, body := some [⟨0⟩] },
    { name := "pong", params := [⟨1⟩], result := .void, body := some [⟨1⟩] }]
  globals := #[⟨0⟩]
  roots := #[⟨0⟩]

/-- The same with entries that nothing refers to: an expression below itself, a statement and a global at positions
outside the module, a function that would have no result, and an aggregate that holds itself. -/
def pingPongAndMore : Module :=
  { pingPong with
    exprs := pingPong.exprs.push { kind := .unary .minus ⟨5⟩, ty := .aggregate ⟨0⟩, category := .lvalue }
    stmts := pingPong.stmts.push (.varDecl ⟨9⟩)
    vars := pingPong.vars.push { name := "one", ty := .aggregate ⟨7⟩, init := some ⟨9⟩, isGlobal := true }
    functions := pingPong.functions.push { name := "ping", params := [⟨9⟩], result := .void, body := some [⟨2⟩] }
    aggregates := #[{ name := "A", members := [.aggregate ⟨0⟩] }] }

/-- `pingPong` has a C file, and `pingPongAndMore` has the same. -/
theorem unused_entries_change_nothing_pingPong : ∃ text, pingPong.ExtendedBy pingPongAndMore ∧
    generate pingPong {} = .ok text ∧ generate pingPongAndMore {} = .ok text := by
  have hrun : (generateDraft pingPong {}).isOk = true := by decide +kernel
  have hextended : pingPong.ExtendedBy pingPongAndMore :=
    ⟨List.prefix_append .., List.prefix_append .., List.prefix_append .., List.prefix_append .., List.prefix_append ..,
      rfl, rfl, rfl⟩
  cases h : generateDraft pingPong {} with
  | error e =>
    rw [h] at hrun
    cases hrun
  | ok d =>
    have htext : generate pingPong {} = .ok (d.unit.print (Options.indentation {})) := by
      unfold generate generateUnit
      rw [h]
      rfl
    exact ⟨_, hextended, htext, unused_entries_change_nothing hextended htext⟩

end CBackend
