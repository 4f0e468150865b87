import CBackend.Proofs.Linkage.Modules

/-!
# Functions are emitted once

The functions of the output are those whose names were asked for. A function of the C library brings its header,
every other function has one declaration, and one definition if it has a body, in the same order. All of them are
reached from what the module starts from, and each body takes one round of the loop.

## Main definitions

* `EmitsOnce` : the functions of a draft are emitted once.

## Main results

* `functions_emitted_once` : this holds for the draft of every module.
-/

namespace CBackend

open IR
open C (Prototype)

/-- The functions of the draft of a module are emitted once. -/
structure EmitsOnce (m : Module) (options : Options) (d : Draft) : Prop where
  /-- The functions of the draft are those whose names were asked for on the way to it. -/
  asked : ∃ d₀, Draft.new options = .ok d₀ ∧ Turns m d₀ d ∧ ∀ func, func ∈ d.requested ↔ AskedFor m d₀ d func
  roots : ∀ func ∈ m.roots, func ∈ d.requested
  entry : ∀ func ∈ m.entry, func ∈ d.requested
  /-- The module reaches every one of them. -/
  reached : ∀ func ∈ d.requested, m.Reached (.func func)
  nodup : d.requested.Nodup
  /-- The headers of the functions of the C library are included, and those that the output needs by itself. -/
  headers : ∀ header, (∃ func ∈ d.requested, m.header? func = some header) → header ∈ d.unit.includes
  includes : ∀ header ∈ d.unit.includes,
    header ∈ supportHeaders ∨ ∃ func ∈ d.requested, m.header? func = some header
  includes_nodup : d.unit.includes.toList.Nodup
  /-- Every other function has one declaration. It has one definition if it has a body, and the order of the
  definitions is that of the declarations. Nothing else is declared, and only `main` is defined besides. -/
  emitted : ∃ proto : FuncId → Prototype, d.unit.prototypes.toList = (d.declared m).map proto ∧
    d.unit.definitions.toList.map (·.head) = (d.defined m).map proto ++ d.mainHeads m ∧
    ∀ func ∈ d.declared m, d.functions.lookup func = some (proto func).name
  /-- The loop goes on until the queue is empty. Each definition takes one round, and there are at most as many
  rounds as functions. -/
  rounds : (∃ d₀ d₁ d₂, Stages m options d₀ d₁ d₂ d) ∧ (d.defined m).length ≤ m.functions.size

/-- The functions of every module are emitted once. -/
theorem functions_emitted_once {m : Module} {options : Options} {d : Draft} (h : generateDraft m options = .ok d) :
    EmitsOnce m options d := by
  obtain ⟨d₀, d₁, d₂, hstages, hturns₁, hturns, hemitted⟩ := exists_stages h
  have hblank := Draft.blank_of_new hstages.new
  have hincluded : Included m d := hblank.included.of_turns (hturns₁.trans hturns)
  obtain ⟨hroots, hentry⟩ := Ensures.requestSources _ _ hstages.sources
  have hfollows := Follows.of_turns hturns
  obtain ⟨proto, hproto, hprototypes, hdefinitions⟩ := hemitted.exists_proto
  exact
    { asked := ⟨d₀, hstages.new, hturns₁.trans hturns, fun _ =>
        mem_requested_iff_askedFor (hturns₁.trans hturns) hblank.requested_eq⟩
      roots := fun func hfunc => hfollows.mem_requested (hroots func hfunc)
      entry := fun func hfunc => hfollows.mem_requested (hentry func hfunc)
      reached := hemitted.reached
      nodup := hemitted.nodup
      headers := fun header ⟨func, hfunc, hheader⟩ => hincluded.headers func hfunc header hheader
      includes := hincluded.sources
      includes_nodup := hincluded.nodup
      emitted := by
        refine ⟨proto, hprototypes, hdefinitions, fun func hfunc => ?_⟩
        obtain ⟨f, c, params, result, types, name, -, -, -, -, hname, hp⟩ :=
          prototype?_eq_some_iff.1 (hproto func hfunc)
        rw [hname, hp]
      rounds := ⟨⟨d₀, d₁, d₂, hstages⟩, hemitted.length_le⟩ }

/-- Two functions that call each other and one of the C library, and another function that nothing refers to. -/
def mutualCalls : Module where
  exprs := #[{ kind := .call ⟨2⟩ [] .regular, ty := .void, category := .none },
    { kind := .call ⟨1⟩ [] .regular, ty := .void, category := .none },
    { kind := .call ⟨3⟩ [] .regular, ty := .void, category := .none }]
  stmts := #[.expression ⟨0⟩, .expression ⟨1⟩, .expression ⟨2⟩]
  functions := #[{ name := "unused", params := [], result := .void, body := some [⟨0⟩] },
    { name := "ping", params := [], result := .void, body := some [⟨2⟩, ⟨0⟩] },
    { name := "pong", params := [], result := .void, body := some [⟨1⟩, ⟨2⟩] },
    { name := "abort", params := [], result := .void, libraryHeader := some "stdlib.h" }]
  entry := some ⟨1⟩

/-- In `mutualCalls` both functions are declared and defined once, and the unused one is not. -/
theorem functions_emitted_once_mutualCalls : ∃ d, generateDraft mutualCalls {} = .ok d ∧ EmitsOnce mutualCalls {} d ∧
    d.requested = [⟨1⟩, ⟨3⟩, ⟨2⟩] ∧ d.declared mutualCalls = [⟨1⟩, ⟨2⟩] ∧ d.defined mutualCalls = [⟨1⟩, ⟨2⟩] ∧
    d.unit.includes = #["stdlib.h"] ∧ (d.mainHeads mutualCalls).length = 1 := by
  have hrun : ((generateDraft mutualCalls {}).toOption.any fun d => d.requested == [⟨1⟩, ⟨3⟩, ⟨2⟩] &&
      d.declared mutualCalls == [⟨1⟩, ⟨2⟩] && d.defined mutualCalls == [⟨1⟩, ⟨2⟩] &&
      d.unit.includes == #["stdlib.h"] && (d.mainHeads mutualCalls).length == 1) = true := by
    decide +kernel
  cases h : generateDraft mutualCalls {} with
  | error e =>
    rw [h] at hrun
    cases hrun
  | ok d =>
    rw [h] at hrun
    refine ⟨d, rfl, functions_emitted_once h, ?_⟩
    simpa [Except.toOption, and_assoc] using hrun

end CBackend
