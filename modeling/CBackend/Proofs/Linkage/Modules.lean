import CBackend.Generate
import CBackend.Proofs.Linkage.Definitions
import Mathlib.Data.List.Nodup
import Mathlib.Data.List.Perm.Subperm

/-!
# The functions of a module

The work on a module has three parts: the globals, the functions to be kept and the entry are requested, the queue is
drained, and `main` is added. The queue grows while it is drained, but no function gets into it twice, so that the
loop ends after at most as many rounds as the module has functions.
-/

namespace CBackend

open IR
open C (Prototype)

variable {m : Module} {d d' d₀ : Draft} {taken written : List FuncId} {func : FuncId}

/-! ### Functions that are asked for -/

/-- At some moment between two drafts the name of a function is asked for. -/
def AskedFor (m : Module) (d₀ d : Draft) (func : FuncId) : Prop :=
  ∃ d₁ name d₂, Turns m d₀ d₁ ∧ Lowering.declareFunction m func d₁ = .ok (name, d₂) ∧ Turns m d₂ d

theorem Turn.follows (h : Turn m d d') : Follows d d' := by
  cases h with
  | request h => exact h.follows
  | take | define => exact ⟨SameTypes.later ⟨rfl, rfl, rfl, rfl, rfl⟩, fun _ _ h => h⟩

theorem Follows.of_turns (h : Turns m d d') : Follows d d' := by
  induction h with
  | refl => exact .refl d
  | tail _ hstep ih => exact ih.trans hstep.follows

theorem Follows.mem_requested (h : Follows d d') (hfunc : func ∈ d.requested) : func ∈ d'.requested := by
  obtain ⟨name, hname⟩ := Option.ne_none_iff_exists'.1 (mem_requested_iff.1 hfunc)
  exact mem_requested_iff.2 (by rw [h.names func name hname]; exact Option.some_ne_none name)

theorem Requested.mem_requested {name : C.Name} (h : Requested m func d name d') : func ∈ d'.requested :=
  mem_requested_iff.2 (by rw [h.lookup_eq]; exact Option.some_ne_none name)

/-- A request adds no other function. -/
theorem Requested.mem_or_eq {name : C.Name} {func' : FuncId} (h : Requested m func d name d')
    (hmem : func' ∈ d'.requested) : func' ∈ d.requested ∨ func' = func := by
  cases h with
  | known => exact .inl hmem
  | library =>
    rw [requested_withFunction, Draft.requested, functions_withHeader] at hmem
    simpa [Draft.requested] using hmem
  | @declared _ d₂ _ _ _ _ _ _ _ _ _ _ hname _ _ hsignature =>
    have hsame : SameLinks _ d₂ := Keeps.ofSignature _ _ _ hsignature
    change func' ∈ d₂.requested at hmem
    rw [hsame.requested_eq, requested_withFunction, hname.same.1.requested_eq] at hmem
    simpa using hmem

/-- Whatever is new among the functions of a draft was asked for. -/
theorem Turn.mem_or_asked (h : Turn m d d') (hmem : func ∈ d'.requested) :
    func ∈ d.requested ∨ ∃ name, Lowering.declareFunction m func d = .ok (name, d') := by
  cases h with
  | take | define => exact .inl hmem
  | request h =>
    cases h with
    | body | value | header | statics => exact .inl hmem
    | type hrun =>
      have hsame : SameLinks d d' := Keeps.lowerType _ _ _ hrun
      exact .inl (hsame.requested_eq ▸ hmem)
    | @function _ func' name _ hrun =>
      obtain hmem | rfl := (Ensures.declareFunction _ _ hrun).mem_or_eq hmem
      · exact .inl hmem
      · exact .inr ⟨name, hrun⟩

/-- The functions of a draft are those that were asked for. -/
theorem mem_requested_iff_askedFor (h : Turns m d₀ d) (hnil : d₀.requested = []) :
    func ∈ d.requested ↔ AskedFor m d₀ d func := by
  refine ⟨fun hmem => ?_, fun ⟨d₁, name, d₂, _, hrun, hlater⟩ => ?_⟩
  · induction h with
    | refl =>
      rw [hnil] at hmem
      cases hmem
    | @tail d₁ d₂ hturns hturn ih =>
      obtain hmem | ⟨name, hrun⟩ := hturn.mem_or_asked hmem
      · obtain ⟨d₃, name, d₄, hbefore, hrun, hafter⟩ := ih hmem
        exact ⟨d₃, name, d₄, hbefore, hrun, hafter.tail hturn⟩
      · exact ⟨d₁, name, d₂, hturns, hrun, .refl⟩
  · exact (Follows.of_turns hlater).mem_requested (Ensures.declareFunction _ _ hrun).mem_requested

theorem Included.of_turns (hd : Included m d) (h : Turns m d d') : Included m d' := by
  induction h with
  | refl => exact hd
  | tail _ hturn ih =>
    cases hturn with
    | request h => exact ih.of_request h
    | take | define => exact ⟨ih.nodup, ih.sources, ih.headers⟩

/-! ### The loop -/

/-- The loop that writes the bodies of the queued functions until the queue is empty, and the number of its
rounds. -/
inductive Drains (m : Module) (w : Lowering.Walk) : Draft → Nat → Draft → Prop
  | done {d : Draft} (h : d.queue = []) : Drains m w d 0 d
  | next {d d₁ d₂ : Draft} {func : FuncId} {rest : List FuncId} {n : Nat} (h : d.queue = func :: rest)
      (hbody : Lowering.functionBody m w func { d with queue := rest } = .ok ((), d₁))
      (hrest : Drains m w d₁ n d₂) : Drains m w d (n + 1) d₂

/-- A function is taken from the queue. -/
theorem Linked.take {rest : List FuncId} (hd : Linked m taken written d) (h : d.queue = func :: rest) :
    Linked m (taken ++ [func]) written { d with queue := rest } := by
  have hfollows : Follows d { d with queue := rest } :=
    ⟨SameTypes.later ⟨rfl, rfl, rfl, rfl, rfl⟩, fun _ _ h => h⟩
  refine ⟨hd.nodup, hd.known, hd.reached, hfollows.map_prototype? hd.prototypes, ?_,
    hfollows.map_prototype? hd.definitions⟩
  have hqueue := hd.queue
  rw [h, ← List.singleton_append, ← List.append_assoc] at hqueue
  exact hqueue

/-- Functions of a module without repetition are at most as many as the module has. -/
theorem length_le_of_nodup {funcs : List FuncId} (hnodup : funcs.Nodup)
    (h : ∀ func ∈ funcs, ∃ f, m.function? func = some f) : funcs.length ≤ m.functions.size := by
  have hindex : (funcs.map (·.index)).Nodup := List.Nodup.map (fun a b h => by cases a; cases b; simpa using h) hnodup
  have hsubset : funcs.map (·.index) ⊆ List.range m.functions.size := by
    intro n hn
    obtain ⟨func, hfunc, rfl⟩ := List.mem_map.1 hn
    obtain ⟨f, hf⟩ := h func hfunc
    exact List.mem_range.2 (Array.getElem?_eq_some_iff.1 hf).1
  have hlength := (hindex.subperm hsubset).length_le
  rwa [List.length_map, List.length_range] at hlength

/-- No function is queued twice. -/
theorem Linked.length_le (hd : Linked m taken written d) : taken.length + d.queue.length ≤ m.functions.size := by
  rw [← List.length_append, hd.queue]
  refine length_le_of_nodup ((hd.nodup.filter _).filter _) fun func hfunc => ?_
  obtain ⟨f, hf, -⟩ := hd.known func (mem_defined_iff.1 hfunc).1
  exact ⟨f, hf⟩

/-- The bounded loop empties the queue. -/
theorem Linked.drainQueue {w : Lowering.Walk} (hw : w.Sound false m) {n : Nat} (hd : Linked m written written d)
    (hfinished : Finished false m .all d) (hn : written.length + n = m.functions.size) :
    Ensures d (Lowering.drainQueue m w n) fun _ d' => ∃ rounds all, Drains m w d rounds d' ∧
      all.length = written.length + rounds ∧ Linked m all all d' ∧ d'.queue = [] ∧ Turns m d d' := by
  induction n generalizing d written with
  | zero =>
    have hqueue : d.queue = [] := List.eq_nil_of_length_eq_zero (by have := hd.length_le; omega)
    exact .pure ⟨0, written, .done hqueue, rfl, hd, hqueue, .refl⟩
  | succ n ih =>
    cases hqueue : d.queue with
    | nil =>
      refine .bind (Q := fun next d₁ => next = none ∧ d = d₁) (.get_bind ?_) ?_
      · rw [hqueue]
        exact .pure ⟨rfl, rfl⟩
      · rintro _ _ ⟨rfl, rfl⟩
        exact .pure ⟨0, written, .done hqueue, rfl, hd, hqueue, .refl⟩
    | cons func rest =>
      refine .bind (Q := fun next d₁ => next = some func ∧ d₁ = { d with queue := rest }) (.get_bind ?_) ?_
      · rw [hqueue]
        exact .bind (.modify (Φ := fun _ d₁ => d₁ = { d with queue := rest }) rfl) fun _ _ h => .pure ⟨rfl, h⟩
      · rintro _ _ ⟨rfl, rfl⟩
        have hbody := (hd.take hqueue).functionBody hw (hfinished.take hqueue)
        refine .bind (Q := fun _ d₁ => Lowering.functionBody m w func { d with queue := rest } = .ok ((), d₁))
          (fun _ _ h => h) fun _ d₁ hrun => ?_
        obtain ⟨hlinked, hturns, hfinished₁⟩ := hbody _ _ hrun
        refine (ih hlinked hfinished₁ (by simp; omega)).mono ?_
        rintro _ d' ⟨rounds, all, hdrains, hlength, hall, hnil, hturns'⟩
        refine ⟨rounds + 1, all, .next hqueue hrun hdrains, ?_, hall, hnil, .head (.take hqueue) (hturns.trans hturns')⟩
        rw [hlength, List.length_append, List.length_singleton, Nat.add_assoc, Nat.add_comm 1]

/-! ### The rest of the work -/

/-- The head of `main`, if it is added. -/
def Draft.mainHeads (m : Module) (d : Draft) : List Prototype :=
  match m.entry with
  | some entry =>
    if (d.functions.lookup entry).any (·.spelling == "main") then [] else [⟨false, .int, .symbol "main", []⟩]
  | none => []

/-- Asking for functions one after the other. -/
theorem Ensures.declareFunctions {funcs : List FuncId} :
    Ensures d (funcs.forM fun func => Functor.discard (Lowering.declareFunction m func)) fun _ d' =>
      Follows d d' ∧ ∀ func ∈ funcs, func ∈ d'.requested := by
  induction funcs generalizing d with
  | nil => exact .pure ⟨.refl d, by simp⟩
  | cons func funcs ih =>
    refine .bind (.discard (Φ := fun _ d₁ => Follows d d₁ ∧ func ∈ d₁.requested)
      (Ensures.declareFunction.mono fun _ _ h => ⟨h.follows, h.mem_requested⟩)) ?_
    rintro _ d₁ ⟨hfollows, hmem⟩
    refine ih.mono fun _ d' ⟨hfollows', hmem'⟩ => ⟨hfollows.trans hfollows', ?_⟩
    intro func' hfunc'
    obtain rfl | hfunc' := List.mem_cons.1 hfunc'
    · exact hfollows'.mem_requested hmem
    · exact hmem' func' hfunc'

theorem Ensures.requestSources : Ensures d (Lowering.requestSources m) fun _ d' =>
    (∀ func ∈ m.roots, func ∈ d'.requested) ∧ ∀ func ∈ m.entry, func ∈ d'.requested := by
  refine .bind (Q := fun _ _ => True) (fun _ _ _ => trivial) fun _ d₁ _ => ?_
  refine .bind .declareFunctions fun _ d₂ ⟨_, hroots⟩ => ?_
  refine Ensures.declareFunctions.mono fun _ d₃ ⟨hfollows, hentry⟩ => ⟨fun func hfunc => ?_, fun func hfunc => ?_⟩
  · exact hfollows.mem_requested (hroots func (by simpa using hfunc))
  · exact hentry func (by simpa using hfunc)

/-- Adding `main` leaves everything but the definitions alone. -/
theorem Ensures.addMain (hentry : ∀ func ∈ m.entry, func ∈ d.requested) :
    Ensures d (Lowering.addMain m) fun _ d' => d.mainHeads m = [] ∧ d' = d ∨
      ∃ df body, d.mainHeads m = [C.Definition.head df] ∧ d' = { d with
        unit.definitions := d.unit.definitions.push df, bodies := d.bodies.push body } := by
  unfold Lowering.addMain
  cases hm : m.entry with
  | none => exact .pure (.inl ⟨by simp [Draft.mainHeads, hm], rfl⟩)
  | some entry =>
    refine .bind ?_ fun _ _ h => .pure h
    refine .bind (.declareFunction_of_mem (hentry entry hm)) ?_
    rintro name _ ⟨rfl, hname⟩
    split
    · next hmain => exact .pure (.inl ⟨by simp [Draft.mainHeads, hm, hname, hmain], rfl⟩)
    · next hmain =>
      refine .lift_bind fun f _ => .lift_bind fun c _ => .lift_bind fun lines _ => .modify (.inr ?_)
      exact ⟨⟨false, .int, .symbol "main", [], _⟩, _, by simp [Draft.mainHeads, hm, hname, hmain, C.Definition.head], rfl⟩

/-! ### The draft of a module -/

theorem Draft.Blank.requested_eq (hd : d.Blank) : d.requested = [] := by
  rw [Draft.requested, hd.functions]
  rfl

theorem Draft.Blank.linked (hd : d.Blank) : Linked m [] [] d := by
  have hrequested := hd.requested_eq
  refine ⟨?_, ?_, ?_, ?_, ?_, ?_⟩
  all_goals simp [hrequested, Draft.declared, Draft.defined, hd.prototypes, hd.queue, hd.definitions]

theorem Draft.Blank.included (hd : d.Blank) : Included m d := by
  refine ⟨?_, ?_, ?_⟩
  all_goals simp [hd.includes, hd.requested_eq]

/-- The declarations and definitions of a finished draft. -/
structure Emitted (m : Module) (d : Draft) : Prop where
  nodup : d.requested.Nodup
  known : ∀ func ∈ d.requested, ∃ f, m.function? func = some f ∧ f.isIntrinsic = false
  reached : ∀ func ∈ d.requested, m.Reached (.func func)
  prototypes : (d.declared m).map (prototype? m · d) = d.unit.prototypes.toList.map some
  definitions : (d.defined m).map (prototype? m · d) ++ (d.mainHeads m).map some =
    (d.unit.definitions.toList.map (·.head)).map some

theorem Emitted.length_le (hd : Emitted m d) : (d.defined m).length ≤ m.functions.size := by
  refine length_le_of_nodup ((hd.nodup.filter _).filter _) fun func hfunc => ?_
  obtain ⟨f, hf, -⟩ := hd.known func (mem_defined_iff.1 hfunc).1
  exact ⟨f, hf⟩

/-- The declarations of a finished draft as a function of what they declare. -/
theorem Emitted.exists_proto (hd : Emitted m d) :
    ∃ proto : FuncId → Prototype, (∀ func ∈ d.declared m, prototype? m func d = some (proto func)) ∧
      d.unit.prototypes.toList = (d.declared m).map proto ∧
      d.unit.definitions.toList.map (·.head) = (d.defined m).map proto ++ d.mainHeads m := by
  have hsome : ∀ func ∈ d.declared m, ∃ p, prototype? m func d = some p := by
    intro func hfunc
    have hmem : prototype? m func d ∈ d.unit.prototypes.toList.map some := hd.prototypes ▸ List.mem_map_of_mem hfunc
    obtain ⟨p, -, hp⟩ := List.mem_map.1 hmem
    exact ⟨p, hp.symm⟩
  let proto (func : FuncId) : Prototype := (prototype? m func d).getD ⟨false, .void, .symbol "", []⟩
  have hproto : ∀ func ∈ d.declared m, prototype? m func d = some (proto func) := by
    intro func hfunc
    obtain ⟨p, hp⟩ := hsome func hfunc
    simp [proto, hp]
  have hmap {funcs : List FuncId} (h : ∀ func ∈ funcs, func ∈ d.declared m) :
      funcs.map (prototype? m · d) = (funcs.map proto).map some := by
    rw [List.map_map]
    exact List.map_congr_left fun func hfunc => hproto func (h func hfunc)
  have hinj {ps ps' : List Prototype} : ps.map some = ps'.map some → ps = ps' :=
    (List.map_inj_right fun _ _ => Option.some.inj).1
  refine ⟨proto, hproto, hinj ?_, hinj ?_⟩
  · rw [← hd.prototypes, hmap fun _ h => h]
  · have hdefined : ∀ func ∈ d.defined m, func ∈ d.declared m := fun _ h => (List.mem_filter.1 h).1
    rw [← hd.definitions, hmap hdefined, List.map_append]

/-- Adding `main` finishes a draft. -/
theorem Linked.addMain (hd : Linked m (d.defined m) (d.defined m) d) (hentry : ∀ func ∈ m.entry, func ∈ d.requested) :
    Ensures d (Lowering.addMain m) fun _ d' => Emitted m d' ∧ Turns m d d' ∧ d'.requested = d.requested := by
  refine (Ensures.addMain hentry).mono ?_
  rintro _ d' (⟨hmain, rfl⟩ | ⟨df, body, hmain, rfl⟩)
  · refine ⟨⟨hd.nodup, hd.known, hd.reached, hd.prototypes, ?_⟩, .refl, rfl⟩
    rw [hmain, hd.definitions]
    exact List.append_nil _
  · have hfollows : Follows d { d with
        unit.definitions := d.unit.definitions.push df, bodies := d.bodies.push body } :=
      ⟨SameTypes.later ⟨rfl, rfl, rfl, rfl, rfl⟩, fun _ _ h => h⟩
    refine ⟨⟨hd.nodup, hd.known, hd.reached, hfollows.map_prototype? hd.prototypes, ?_⟩,
      .single (.define d.func df body), rfl⟩
    change (d.defined m).map _ ++ (d.mainHeads m).map some = _
    rw [hfollows.map_prototype? hd.definitions, hmain, Array.toList_push, List.map_append, List.map_append]
    rfl

/-- The three parts of the work on a module: its sources are requested, the loop writes the bodies, each in one
round, and `main` is added. -/
structure Stages (m : Module) (options : Options) (d₀ d₁ d₂ d : Draft) : Prop where
  new : Draft.new options = .ok d₀
  sources : Lowering.requestSources m d₀ = .ok ((), d₁)
  drains : Drains m (Lowering.Walk.ofModule m) d₁ (d.defined m).length d₂
  main : Lowering.addMain m d₂ = .ok ((), d)

/-- The draft of a module comes about in three stages. -/
theorem exists_stages {options : Options} (h : generateDraft m options = .ok d) :
    ∃ d₀ d₁ d₂, Stages m options d₀ d₁ d₂ d ∧ Turns m d₀ d₁ ∧ Turns m d₁ d ∧ Emitted m d := by
  obtain ⟨d₀, hnew, h⟩ := exists_of_bind_eq_ok h
  obtain ⟨⟨_, d'⟩, hrun, h⟩ := exists_of_bind_eq_ok h
  cases h
  have hblank := Draft.blank_of_new hnew
  have hfinished : Finished false m .all d₀ := .ofBlank hblank
  rw [Lowering.wholeModule_eq] at hrun
  obtain ⟨⟨_, d₁⟩, hsources, hrun⟩ := exists_of_bind_eq_ok hrun
  obtain ⟨⟨_, d₂⟩, hdrain, hmain⟩ := exists_of_bind_eq_ok hrun
  obtain ⟨hs, -⟩ := Silently.requestSources hfinished.made _ _ hsources
  have hrequests := hs.rest.requests
  have hlinked₁ : Linked m [] [] d₁ := hblank.linked.of_requests hrequests
  obtain ⟨rounds, all, hdrains, hlength, hlinked₂, hnil, hturns⟩ :=
    hlinked₁.drainQueue (.ofModule nofun) (hfinished.silent hs) (Nat.zero_add _) _ _ hdrain
  have hall : all = d₂.defined m := by
    rw [← hlinked₂.queue, hnil, List.append_nil]
  subst hall
  rw [List.length_nil, Nat.zero_add] at hlength
  have hentry : ∀ func ∈ m.entry, func ∈ d₂.requested := fun func hfunc =>
    (Follows.of_turns hturns).mem_requested ((Ensures.requestSources _ _ hsources).2 func hfunc)
  obtain ⟨hemitted, hturns', hrequested⟩ := hlinked₂.addMain hentry _ _ hmain
  have hdefined : d.defined m = d₂.defined m := by
    rw [Draft.defined, Draft.declared, hrequested, Draft.defined, Draft.declared]
  exact ⟨d₀, d₁, d₂, ⟨hnew, hsources, by rwa [hdefined, hlength], hmain⟩, .ofRequests hrequests, hturns.trans hturns',
    hemitted⟩

end CBackend
