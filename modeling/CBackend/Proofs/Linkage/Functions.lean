import CBackend.Proofs.Lowering.Constants
import CBackend.Proofs.Linkage.Types

/-!
# The functions of a draft

A draft keeps the functions that were requested, those whose bodies are still to be written, the declarations and
the definitions. They fit together at every moment: there is one declaration for each requested function that is
not from the C library, in the order of the requests, and the bodies are taken from the queue in the same order.
-/

namespace CBackend

open IR
open C (CType Prototype)

/-- The head of a definition. -/
def C.Definition.head (df : C.Definition) : Prototype :=
  ⟨df.isStatic, df.result, df.name, df.params.map (·.1)⟩

namespace IR.Module

variable (m : Module)

/-- The header of a function of the C library. -/
def header? (func : FuncId) : Option String :=
  (m.function? func).bind (·.libraryHeader)

/-- Whether a function has a body. -/
def hasBody (func : FuncId) : Bool :=
  (m.function? func).any (·.body.isSome)

end IR.Module

namespace Draft

variable (m : Module) (d : Draft)

/-- The functions whose names were asked for, in the order of the first requests. -/
def requested : List FuncId :=
  (d.functions.map (·.1)).reverse

/-- The requested functions that are not from the C library. -/
def declared : List FuncId :=
  d.requested.filter fun func => (m.header? func).isNone

/-- The requested functions that are not from the C library and have a body. -/
def defined : List FuncId :=
  (d.declared m).filter m.hasBody

end Draft

/-- The declaration of a function, as it can be looked up in a draft. -/
def prototype? (m : Module) (func : FuncId) : Lookup Prototype := do
  let f ← fun _ => m.function? func
  let c ← checked (Convention.ofFunction m func)
  let params ← fun _ => m.paramTypes? f
  let (result, types) ← signatureOf? c (typeOf? m f.result) (typesOf? m params)
  let name ← fun d => d.functions.lookup func
  pure ⟨f.isStatic, result, name, types⟩

/-- The functions, the queue, the declarations and the definitions of a draft fit together, when the functions of the
first list have been taken from the queue and those of the second list are defined. -/
structure Linked (m : Module) (taken written : List FuncId) (d : Draft) : Prop where
  nodup : d.requested.Nodup
  known : ∀ func ∈ d.requested, ∃ f, m.function? func = some f ∧ f.isIntrinsic = false
  reached : ∀ func ∈ d.requested, m.Reached (.func func)
  prototypes : (d.declared m).map (prototype? m · d) = d.unit.prototypes.toList.map some
  queue : taken ++ d.queue = d.defined m
  definitions : written.map (prototype? m · d) = (d.unit.definitions.toList.map (·.head)).map some

/-- The includes of a draft are those that the output needs by itself and those of the requested functions of the C
library, each of them once. -/
structure Included (m : Module) (d : Draft) : Prop where
  nodup : d.unit.includes.toList.Nodup
  sources : ∀ header ∈ d.unit.includes, header ∈ supportHeaders ∨ ∃ func ∈ d.requested, m.header? func = some header
  headers : ∀ func ∈ d.requested, ∀ header, m.header? func = some header → header ∈ d.unit.includes

variable {m : Module} {taken written : List FuncId} {d d' : Draft} {d₂ : Draft} {func : FuncId} {header : String}
  {name : C.Name} {f : Function}

theorem checked_eq_some_iff {α : Type} {x : Except Fault α} {a : α} : checked x d = some a ↔ x = .ok a := by
  cases x <;> simp [checked, Except.toOption]

/-! ### Later drafts -/

/-- A draft keeps the types and the names of an earlier one. -/
structure Follows (d d' : Draft) : Prop where
  later : Later d d'
  names : ∀ func name, d.functions.lookup func = some name → d'.functions.lookup func = some name

theorem Follows.refl (d : Draft) : Follows d d :=
  ⟨.refl d, fun _ _ h => h⟩

theorem Follows.trans {d₁ d₃ : Draft} (h : Follows d₁ d₂) (h' : Follows d₂ d₃) : Follows d₁ d₃ :=
  ⟨h.later.trans h'.later, fun func name hname => h'.names func name (h.names func name hname)⟩

theorem prototype?_eq_some_iff {p : Prototype} :
    prototype? m func d = some p ↔ ∃ f c params result types name, m.function? func = some f ∧
      Convention.ofFunction m func = .ok c ∧ m.paramTypes? f = some params ∧
      signatureOf? c (typeOf? m f.result) (typesOf? m params) d = some (result, types) ∧
      d.functions.lookup func = some name ∧ p = ⟨f.isStatic, result, name, types⟩ := by
  constructor
  · intro hp
    obtain ⟨f, hf, hp⟩ := Option.bind_eq_some_iff.1 hp
    obtain ⟨c, hc, hp⟩ := Option.bind_eq_some_iff.1 hp
    obtain ⟨params, hparams, hp⟩ := Option.bind_eq_some_iff.1 hp
    obtain ⟨⟨result, types⟩, hs, hp⟩ := Option.bind_eq_some_iff.1 hp
    obtain ⟨name, hname, hp⟩ := Option.bind_eq_some_iff.1 hp
    exact ⟨f, c, params, result, types, name, hf, checked_eq_some_iff.1 hc, hparams, hs, hname,
      (Option.some.inj hp).symm⟩
  · rintro ⟨f, c, params, result, types, name, hf, hc, hparams, hs, hname, rfl⟩
    exact Option.bind_eq_some_iff.2 ⟨f, hf, Option.bind_eq_some_iff.2 ⟨c, checked_eq_some_iff.2 hc,
      Option.bind_eq_some_iff.2 ⟨params, hparams, Option.bind_eq_some_iff.2 ⟨(result, types), hs,
        Option.bind_eq_some_iff.2 ⟨name, hname, rfl⟩⟩⟩⟩⟩

/-- The declaration of a function stays the same. -/
theorem Follows.prototype? (h : Follows d d') {p : Prototype} (hp : prototype? m func d = some p) :
    CBackend.prototype? m func d' = some p := by
  obtain ⟨f, c, params, result, types, name, hf, hc, hparams, hs, hname, rfl⟩ := prototype?_eq_some_iff.1 hp
  have hs' := stable_signatureOf? m c f.result params d d' _ h.later hs
  exact prototype?_eq_some_iff.2
    ⟨f, c, params, result, types, name, hf, hc, hparams, hs', h.names func name hname, rfl⟩

theorem Follows.map_prototype? (h : Follows d d') {funcs : List FuncId} {ps : List Prototype}
    (hps : funcs.map (CBackend.prototype? m · d) = ps.map some) :
    funcs.map (CBackend.prototype? m · d') = ps.map some := by
  rw [← hps]
  refine List.map_congr_left fun func hfunc => ?_
  have hmem : CBackend.prototype? m func d ∈ ps.map some := hps ▸ List.mem_map_of_mem hfunc
  obtain ⟨p, -, hp⟩ := List.mem_map.1 hmem
  rw [← hp]
  exact h.prototype? hp.symm

/-! ### Requests that leave the functions alone -/

/-- The functions and what belongs to them stay the same. -/
structure SameLinks (d d' : Draft) : Prop where
  functions : d'.functions = d.functions
  queue : d'.queue = d.queue
  includes : d'.unit.includes = d.unit.includes
  prototypes : d'.unit.prototypes = d.unit.prototypes
  definitions : d'.unit.definitions = d.unit.definitions

instance : Std.Refl SameLinks :=
  ⟨fun _ => ⟨rfl, rfl, rfl, rfl, rfl⟩⟩

instance : IsTrans Draft SameLinks :=
  ⟨fun _ _ _ h h' => ⟨h'.functions.trans h.functions, h'.queue.trans h.queue, h'.includes.trans h.includes,
    h'.prototypes.trans h.prototypes, h'.definitions.trans h.definitions⟩⟩

instance : AllowsTypes SameLinks :=
  ⟨fun _ _ _ _ _ _ _ => ⟨rfl, rfl, rfl, rfl, rfl⟩⟩

theorem SameLinks.follows (h : SameLinks d d') (hlater : Later d d') : Follows d d' :=
  ⟨hlater, fun _ _ hname => by rwa [h.functions]⟩

theorem SameLinks.requested_eq (h : SameLinks d d') : d'.requested = d.requested := by
  rw [Draft.requested, h.functions, Draft.requested]

theorem SameLinks.declared_eq (h : SameLinks d d') : d'.declared m = d.declared m := by
  rw [Draft.declared, h.requested_eq, Draft.declared]

theorem Linked.of_same (hd : Linked m taken written d) (h : SameLinks d d') (hlater : Later d d') :
    Linked m taken written d' where
  nodup := h.requested_eq ▸ hd.nodup
  known := h.requested_eq ▸ hd.known
  reached := h.requested_eq ▸ hd.reached
  prototypes := by
    rw [h.declared_eq, h.prototypes]
    exact (h.follows hlater).map_prototype? hd.prototypes
  queue := by rw [h.queue, Draft.defined, h.declared_eq, hd.queue, Draft.defined]
  definitions := by
    rw [h.definitions]
    exact (h.follows hlater).map_prototype? hd.definitions

theorem Included.of_same (hd : Included m d) (h : SameLinks d d') : Included m d' where
  nodup := h.includes ▸ hd.nodup
  sources := h.requested_eq ▸ h.includes ▸ hd.sources
  headers := h.requested_eq ▸ h.includes ▸ hd.headers

/-! ### Headers -/

theorem withHeader_of_notMem (hnew : header ∉ d.unit.includes) :
    d.withHeader header = { d with unit.includes := d.unit.includes.push header } := by
  rw [Draft.withHeader, if_neg (by simpa using hnew)]

theorem mem_includes_withHeader {h : String} :
    h ∈ (d.withHeader header).unit.includes ↔ h ∈ d.unit.includes ∨ h = header := by
  unfold Draft.withHeader
  split
  · next hmem =>
    refine ⟨.inl, ?_⟩
    rintro (hh | rfl)
    · exact hh
    · simpa using hmem
  · exact Array.mem_push

theorem nodup_includes_withHeader (hd : d.unit.includes.toList.Nodup) :
    (d.withHeader header).unit.includes.toList.Nodup := by
  unfold Draft.withHeader
  split
  · exact hd
  · next hnew =>
    rw [Array.toList_push, List.nodup_append]
    refine ⟨hd, by simp, fun a ha b hb => ?_⟩
    rw [List.mem_singleton.1 hb]
    rintro rfl
    exact hnew (by simpa using ha)

theorem Linked.withHeader (hd : Linked m taken written d) :
    Linked m taken written (d.withHeader header) := by
  unfold Draft.withHeader
  split
  · exact hd
  · have hfollows : Follows d { d with unit.includes := d.unit.includes.push header } :=
      ⟨SameTypes.later ⟨rfl, rfl, rfl, rfl, rfl⟩, fun _ _ h => h⟩
    exact ⟨hd.nodup, hd.known, hd.reached, hfollows.map_prototype? hd.prototypes, hd.queue,
      hfollows.map_prototype? hd.definitions⟩

theorem functions_withHeader : (d.withHeader header).functions = d.functions := by
  unfold Draft.withHeader
  split <;> rfl

theorem follows_withHeader : Follows d (d.withHeader header) := by
  unfold Draft.withHeader
  split
  · exact .refl d
  · exact ⟨SameTypes.later ⟨rfl, rfl, rfl, rfl, rfl⟩, fun _ _ h => h⟩

/-! ### Functions that are requested -/

@[simp] theorem requested_withFunction {hasBody : Bool} :
    (d.withFunction func name hasBody).requested = d.requested ++ [func] := by
  simp [Draft.requested, Draft.withFunction]

theorem declared_withFunction {hasBody : Bool} :
    (d.withFunction func name hasBody).declared m =
      d.declared m ++ if (m.header? func).isNone then [func] else [] := by
  simp [Draft.declared, List.filter_cons]

theorem defined_withFunction {hasBody : Bool} :
    (d.withFunction func name hasBody).defined m =
      d.defined m ++ if (m.header? func).isNone && m.hasBody func then [func] else [] := by
  rw [Draft.defined, declared_withFunction, List.filter_append, Draft.defined]
  cases (m.header? func).isNone <;> simp [List.filter_cons]

theorem mem_requested_iff : func ∈ d.requested ↔ d.functions.lookup func ≠ none := by
  rw [Ne, List.lookup_eq_none_iff]
  simp [Draft.requested]

theorem notMem_requested (h : d.functions.lookup func = none) : func ∉ d.requested :=
  fun hmem => mem_requested_iff.1 hmem h

/-- Naming a function keeps the names of the others. -/
theorem follows_withFunction {hasBody : Bool} (hnew : d.functions.lookup func = none) :
    Follows d (d.withFunction func name hasBody) := by
  refine ⟨SameTypes.later ⟨rfl, rfl, rfl, rfl, rfl⟩, fun func' name' hname => ?_⟩
  have hne : func' ≠ func := by
    rintro rfl
    rw [hnew] at hname
    cases hname
  rwa [Draft.withFunction, List.lookup_cons, beq_eq_false_iff_ne.2 hne]

/-- The functions of a draft after a new one has been named. -/
theorem Linked.nodup_append (hd : Linked m taken written d) (hnew : d.functions.lookup func = none) :
    (d.requested ++ [func]).Nodup := by
  rw [List.nodup_append]
  refine ⟨hd.nodup, by simp, fun a ha b hb => ?_⟩
  rw [List.mem_singleton.1 hb]
  rintro rfl
  exact notMem_requested hnew ha

/-- A function is named that is declared by its header, or whose declaration follows. -/
theorem Linked.known_append (hd : Linked m taken written d) (hf : m.function? func = some f)
    (hintrinsic : f.isIntrinsic = false) :
    ∀ func' ∈ d.requested ++ [func], ∃ f, m.function? func' = some f ∧ f.isIntrinsic = false := by
  intro func' hmem
  obtain hmem | rfl := by simpa using hmem
  · exact hd.known func' hmem
  · exact ⟨f, hf, hintrinsic⟩

theorem Linked.reached_append (hd : Linked m taken written d) (hreached : m.Reached (.func func)) :
    ∀ func' ∈ d.requested ++ [func], m.Reached (.func func') := by
  intro func' hmem
  obtain hmem | rfl := by simpa using hmem
  · exact hd.reached func' hmem
  · exact hreached

/-- A function of the C library has no declaration. -/
theorem Linked.of_library (hd : Linked m taken written d) (hreached : m.Reached (.func func))
    (hnew : d.functions.lookup func = none) (hf : m.function? func = some f) (hintrinsic : f.isIntrinsic = false)
    (hheader : f.libraryHeader = some header) :
    Linked m taken written (d.withFunction func name false) := by
  have hlibrary : m.header? func = some header := by simp [Module.header?, hf, hheader]
  have hfollows : Follows d (d.withFunction func name false) := follows_withFunction hnew
  refine ⟨?_, ?_, ?_, ?_, ?_, hfollows.map_prototype? hd.definitions⟩
  · rw [requested_withFunction]
    exact hd.nodup_append hnew
  · rw [requested_withFunction]
    exact hd.known_append hf hintrinsic
  · rw [requested_withFunction]
    exact hd.reached_append hreached
  · rw [declared_withFunction, hlibrary]
    exact (List.append_nil _).symm ▸ hfollows.map_prototype? hd.prototypes
  · rw [defined_withFunction, hlibrary]
    exact (List.append_nil _).symm ▸ hd.queue

/-- Naming and declaring a function keeps the types and the names. -/
theorem follows_declared {hasBody : Bool} {c : Convention} {resultTy : Ty} {params : List Ty} {s : CType × List CType}
    (p : Prototype) (hnew : d.functions.lookup func = none)
    (hsignature : Lowering.signature m c resultTy params (d.withFunction func name hasBody) = .ok (s, d₂)) :
    Follows d { d₂ with unit.prototypes := d₂.unit.prototypes.push p } := by
  obtain ⟨hlater, -⟩ := Finds.signature m c resultTy params _ _ _ hsignature
  have hsame : SameLinks _ d₂ := Keeps.ofSignature _ _ _ hsignature
  exact (follows_withFunction hnew).trans ((hsame.follows hlater).trans
    ⟨SameTypes.later ⟨rfl, rfl, rfl, rfl, rfl⟩, fun _ _ h => h⟩)

theorem NameFor.same (h : NameFor f d name d') : SameLinks d d' ∧ SameTypes d d' := by
  cases h <;> exact ⟨⟨rfl, rfl, rfl, rfl, rfl⟩, ⟨rfl, rfl, rfl, rfl, rfl⟩⟩

/-- A request for a function keeps the types and the names. -/
theorem Requested.follows (h : Requested m func d name d') : Follows d d' := by
  cases h with
  | known => exact .refl d
  | library hnew => exact follows_withHeader.trans (follows_withFunction (by rwa [functions_withHeader]))
  | declared hnew _ _ _ hname _ _ hsignature =>
    obtain ⟨hlinks, htypes⟩ := hname.same
    have hnew' := hlinks.functions ▸ hnew
    exact (hlinks.follows htypes.later).trans (follows_declared _ hnew' hsignature)

/-- Every other function has one, which is added right after the function is named. -/
theorem Linked.of_declared {c : Convention} {params : List Ty} {result : CType} {types : List CType}
    (hd : Linked m taken written d) (hreached : m.Reached (.func func)) (hnew : d.functions.lookup func = none)
    (hf : m.function? func = some f) (hintrinsic : f.isIntrinsic = false) (hheader : f.libraryHeader = none)
    (hc : Convention.ofFunction m func = .ok c) (hparams : m.paramTypes? f = some params)
    (hsignature : Lowering.signature m c f.result params (d.withFunction func name f.body.isSome) =
      .ok ((result, types), d₂)) :
    Linked m taken written
      { d₂ with unit.prototypes := d₂.unit.prototypes.push ⟨f.isStatic, result, name, types⟩ } := by
  have hfollows := follows_declared ⟨f.isStatic, result, name, types⟩ hnew hsignature
  obtain ⟨-, hfound⟩ := Finds.signature m c f.result params _ _ _ hsignature
  have hsame : SameLinks _ d₂ := Keeps.ofSignature _ _ _ hsignature
  have hnone : m.header? func = none := by simp [Module.header?, hf, hheader]
  have hbody : m.hasBody func = f.body.isSome := by simp [Module.hasBody, hf]
  have hrequested : d₂.requested = d.requested ++ [func] := hsame.requested_eq.trans requested_withFunction
  have hdeclared : d₂.declared m = d.declared m ++ [func] := by
    rw [hsame.declared_eq, declared_withFunction, hnone]
    rfl
  have hlookup : d₂.functions.lookup func = some name := by
    rw [hsame.functions]
    exact List.lookup_cons_self
  refine ⟨?_, ?_, ?_, ?_, ?_, ?_⟩
  · exact (hrequested ▸ hd.nodup_append hnew : d₂.requested.Nodup)
  · exact (hrequested ▸ hd.known_append hf hintrinsic :
      ∀ func ∈ d₂.requested, ∃ f, m.function? func = some f ∧ f.isIntrinsic = false)
  · exact (hrequested ▸ hd.reached_append hreached : ∀ func ∈ d₂.requested, m.Reached (.func func))
  · change (d₂.declared m).map _ = _
    rw [hdeclared, Array.toList_push, List.map_append, List.map_append, hfollows.map_prototype? hd.prototypes,
      hsame.prototypes]
    refine congrArg _ (congrArg (fun p => [p]) ?_)
    refine prototype?_eq_some_iff.2 ⟨f, c, params, result, types, name, hf, hc, hparams, ?_, hlookup, rfl⟩
    exact stable_signatureOf? m c f.result params d₂ _ _ (SameTypes.later ⟨rfl, rfl, rfl, rfl, rfl⟩) hfound
  · change taken ++ d₂.queue = (d₂.declared m).filter m.hasBody
    rw [hdeclared, hsame.queue, List.filter_append, List.filter_cons, hbody]
    change taken ++ (if f.body.isSome then d.queue ++ [func] else d.queue) = _
    cases f.body.isSome with
    | true => simpa using! congrArg (· ++ [func]) hd.queue
    | false => simpa using! hd.queue
  · change _ = (d₂.unit.definitions.toList.map _).map some
    rw [hsame.definitions]
    exact hfollows.map_prototype? hd.definitions

/-- The functions of a draft stay together when one is requested. -/
theorem Linked.of_requested (hd : Linked m taken written d) (hreached : m.Reached (.func func))
    (h : Requested m func d name d') : Linked m taken written d' := by
  cases h with
  | known => exact hd
  | library hnew hf hintrinsic hheader =>
    exact hd.withHeader.of_library hreached (by rwa [functions_withHeader]) hf hintrinsic hheader
  | declared hnew hf hintrinsic hheader hname hc hparams hsignature =>
    obtain ⟨hlinks, htypes⟩ := hname.same
    have hnew' := hlinks.functions ▸ hnew
    exact (hd.of_same hlinks htypes.later).of_declared hreached hnew' hf hintrinsic hheader hc hparams hsignature

/-- A new function brings its own header. -/
theorem Included.append (hd : Included m d) (func : FuncId) (hrequested : d'.requested = d.requested ++ [func])
    (hnodup : d'.unit.includes.toList.Nodup)
    (hincludes : ∀ h, h ∈ d'.unit.includes ↔ h ∈ d.unit.includes ∨ m.header? func = some h) : Included m d' := by
  refine ⟨hnodup, fun h hh => ?_, fun func' hfunc' h hh => ?_⟩
  · rw [hrequested]
    obtain hh | hh := (hincludes h).1 hh
    · obtain hsupport | ⟨func', hfunc', hheader⟩ := hd.sources h hh
      · exact .inl hsupport
      · exact .inr ⟨func', by simp [hfunc'], hheader⟩
    · exact .inr ⟨func, by simp, hh⟩
  · rw [hrequested] at hfunc'
    obtain hfunc' | rfl := by simpa using hfunc'
    · exact (hincludes h).2 (.inl (hd.headers func' hfunc' h hh))
    · exact (hincludes h).2 (.inr hh)

theorem Included.of_requested (hd : Included m d) (h : Requested m func d name d') :
    Included m d' := by
  cases h with
  | known => exact hd
  | @library f header hnew hf hintrinsic hheader =>
    refine hd.append func ?_ (nodup_includes_withHeader hd.nodup) fun h => ?_
    · rw [requested_withFunction, Draft.requested, functions_withHeader, Draft.requested]
    · refine mem_includes_withHeader.trans (or_congr_right ?_)
      simp [Module.header?, hf, hheader, eq_comm]
  | @declared d₁ d₂ f name c params result types hnew hf hintrinsic hheader hname hc hparams hsignature =>
    have hsame₂ : SameLinks _ d₂ := Keeps.ofSignature _ _ _ hsignature
    have hincludes : d₂.unit.includes = d.unit.includes := hsame₂.includes.trans hname.same.1.includes
    refine hd.append func ?_ ?_ fun h => ?_
    · change d₂.requested = _
      rw [hsame₂.requested_eq, requested_withFunction, hname.same.1.requested_eq]
    · exact (hincludes ▸ hd.nodup : d₂.unit.includes.toList.Nodup)
    · change h ∈ d₂.unit.includes ↔ _
      simp [hincludes, Module.header?, hf, hheader]

/-! ### Sequences of requests -/

/-- A request keeps the types and the names. -/
theorem Request.follows (h : Request m d d') : Follows d d' := by
  cases h with
  | body | value | statics => exact ⟨SameTypes.later ⟨rfl, rfl, rfl, rfl, rfl⟩, fun _ _ h => h⟩
  | type hrun =>
    have hsame : SameLinks d d' := Keeps.lowerType _ _ _ hrun
    exact hsame.follows (Finds.lowerType m _ _ _ _ _ hrun).1
  | header _ hnew =>
    rw [← withHeader_of_notMem hnew]
    exact follows_withHeader
  | function _ hrun => exact (Ensures.declareFunction _ _ hrun).follows

/-- A request keeps the functions of a draft together. -/
theorem Linked.of_request (hd : Linked m taken written d) (h : Request m d d') : Linked m taken written d' := by
  have hlater := h.follows.later
  cases h with
  | body | value | statics => exact hd.of_same ⟨rfl, rfl, rfl, rfl, rfl⟩ hlater
  | type hrun => exact hd.of_same (Keeps.lowerType _ _ _ hrun) hlater
  | header _ hnew =>
    rw [← withHeader_of_notMem hnew]
    exact hd.withHeader
  | function hreached hrun => exact hd.of_requested hreached (Ensures.declareFunction _ _ hrun)

theorem Included.of_request (hd : Included m d) (h : Request m d d') : Included m d' := by
  cases h with
  | body | value | statics => exact hd.of_same ⟨rfl, rfl, rfl, rfl, rfl⟩
  | type hrun => exact hd.of_same (Keeps.lowerType _ _ _ hrun)
  | @header header hsupport hnew =>
    rw [← withHeader_of_notMem hnew]
    have hrequested : (d.withHeader header).requested = d.requested := by
      rw [Draft.requested, functions_withHeader, Draft.requested]
    refine ⟨nodup_includes_withHeader hd.nodup, fun h hh => ?_, fun func hfunc h hh => ?_⟩
    · rw [hrequested]
      obtain hh | rfl := mem_includes_withHeader.1 hh
      · exact hd.sources h hh
      · exact .inl hsupport
    · rw [hrequested] at hfunc
      exact mem_includes_withHeader.2 (.inl (hd.headers func hfunc h hh))
  | function hreached hrun => exact hd.of_requested (Ensures.declareFunction _ _ hrun)

theorem Follows.of_requests (h : Relation.ReflTransGen (Request m) d d') : Follows d d' := by
  induction h with
  | refl => exact .refl d
  | tail _ hstep ih => exact ih.trans hstep.follows

/-- Requests keep the functions of a draft together. -/
theorem Linked.of_requests (hd : Linked m taken written d) (h : Relation.ReflTransGen (Request m) d d') :
    Linked m taken written d' := by
  induction h with
  | refl => exact hd
  | tail _ hstep ih => exact ih.of_request hstep

end CBackend
