import CBackend.Proofs.Flow.Paths

/-!
# Following a path

A path that takes its conditionals as it is told. It covers straight code with conditionals that have no
further branches, up to a line that leaves for good; this is enough to show a path of a given body.
-/

namespace CBackend.Flow

/-- The path that takes its decisions from a list, with the decisions that are left. The number bounds
the length of the path. -/
def follow : Nat → List Bool → List Step → Option (List Event × Outcome × List Bool)
  | _ + 1, ds, [] => some ([], .falls, ds)
  | n + 1, true :: ds, .line (.ifThen e) :: .line .openBlock :: r =>
    match splitBlock 0 r with
    | none => none
    | some (c, r') =>
      match follow n ds c with
      | none => none
      | some (t, .falls, ds) =>
        if r'.head?.any isElse then none
        else (follow n ds r').map fun p => (.decides e true :: (t ++ p.1), p.2)
      | some (t, o, ds) => some (.decides e true :: t, o, ds)
  | n + 1, false :: ds, .line (.ifThen e) :: .line .openBlock :: r =>
    match splitBlock 0 r with
    | none => none
    | some (_, r') => (follow n ds r').map fun p => (.decides e false :: p.1, p.2)
  | _ + 1, ds, .line (.returnWith e) :: _ => some ([.passes (.line (.returnWith e))], .returns, ds)
  | n + 1, ds, s :: r =>
    if s.isPlain then (follow n ds r).map fun p => (.passes s :: p.1, p.2) else none
  | _, _, _ => none

theorem not_startsElse_of_head? {r : List Step} (h : r.head?.any isElse = false) : ¬ StartsElse r := by
  cases r with
  | nil => exact id
  | cons s r => exact fun hs => Bool.false_ne_true (h.symm.trans hs)

theorem path_of_follow {n : Nat} {ds ds' : List Bool} {L : List Step} {t : List Event} {o : Outcome}
    (h : follow n ds L = some (t, o, ds')) : Path none L t o ∧ ∀ i, o ≠ .jumps i := by
  have hinner {c : List Step} {t : List Event} {o : Outcome} (h : Path none c t o ∧ ∀ i, o ≠ .jumps i) :
      Path (some c) c t o :=
    .stay h.1 fun i _ ho => absurd ho (h.2 i)
  fun_induction follow n ds L generalizing t o ds' with
  | case1 =>
    cases h
    exact ⟨.falls, by rintro i ⟨⟩⟩
  | case2 | case3 | case4 | case7 | case11 | case12 => cases h
  | case5 _ _ e _ c r' hr _ _ hc hr' ih ih' =>
    obtain ⟨⟨t', o', ds₁⟩, hp, hmap⟩ := Option.map_eq_some_iff.1 h
    cases hmap
    have hrest := ih' hp
    exact ⟨.take (.inl rfl) hr (hinner (ih hc)) (.done (not_startsElse_of_head? (by simpa using hr')))
      hrest.1, hrest.2⟩
  | case6 _ _ e _ c r' hr _ _ _ ho hc ih =>
    cases h
    exact ⟨.takeExit (.inl rfl) hr (hinner (ih hc)) ho, (ih hc).2⟩
  | case8 _ _ e _ c r' hr ih =>
    obtain ⟨⟨t', o', ds₁⟩, hp, hmap⟩ := Option.map_eq_some_iff.1 h
    cases hmap
    exact ⟨.refuse (.inl rfl) hr (ih hp).1, (ih hp).2⟩
  | case9 =>
    cases h
    exact ⟨.exit rfl, by rintro i ⟨⟩⟩
  | case10 _ _ _ _ _ _ _ hs ih =>
    obtain ⟨⟨t', o', ds₁⟩, hp, hmap⟩ := Option.map_eq_some_iff.1 h
    cases hmap
    exact ⟨.pass hs (ih hp).1, (ih hp).2⟩

theorem hasPath_of_follow {n : Nat} {ds ds' : List Bool} {b : Body} {t : List Event} {o : Outcome}
    (h : follow n ds b.steps = some (t, o, ds')) : HasPath b t o :=
  .stay (path_of_follow h).1 fun i _ ho => absurd ho ((path_of_follow h).2 i)

end CBackend.Flow
