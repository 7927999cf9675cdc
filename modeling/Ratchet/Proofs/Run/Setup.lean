import Ratchet.Proofs.Run.Exits

/-!
The way into a run and out of it.

Setting up, going through the schedule, and reporting are taken apart as the attempts are: each function
once, with the state that each of its parts leaves.
-/

namespace Ratchet.Run

open Act

variable {σ α : Type}

/-- What a run works on before and after its phases. -/
abbrev Outer (σ : Type) := (Progress × Option σ) × World

namespace Outer

/-- The state with a change of the progress. -/
def note (x : Outer σ) (f : Progress → Progress) : Outer σ := ((f x.1.1, x.1.2), x.2)

/-- The state after an act. -/
def beside (x : Outer σ) (w : World) : Outer σ := (x.1, w)

/-- The state of the phases, with the state of the snapshot provider. -/
def inner (x : Outer σ) (held : σ) : State σ := ((x.1.1, held), x.2)

@[simp] lemma note_world (x : Outer σ) (f : Progress → Progress) : (x.note f).2 = x.2 := rfl
@[simp] lemma beside_world (x : Outer σ) (w : World) : (x.beside w).2 = w := rfl

end Outer

/-- What is left of a state of the phases after them. -/
def State.outer (x : State σ) : Outer σ := ((x.1.1, some x.1.2), x.2)

variable {x y z : Outer σ} {s : Settings} {crew : Crew σ}

@[simp] lemma runOn_setup_note (f : Progress → Progress) :
    runOn x (note f : Setup σ Unit) = (.ok (), x.note f) := rfl

@[simp] lemma runOn_setup_beside (a : Act α) :
    runOn x (Act.beside a) = ((runOn x.2 a).1, x.beside (runOn x.2 a).2) := rfl

@[simp] lemma runOn_setup_kept : runOn x (Act.kept : Setup σ (Progress × Option σ)) = (.ok x.1, x) := rfl

@[simp] lemma runOn_holding (held : σ) (a : Step σ α) :
    runOn x (holding held a) = ((runOn (x.inner held) a).1, (runOn (x.inner held) a).2.outer) := rfl

/-- The progress when the first measurement is there. -/
def analyzed (ds : List Diagnostic) (p : Progress) : Progress :=
  { p with
    diagnostics := ds, initial := ds.length, current := ds.length, grouping := some (Grouping.ofList ds) }

lemma analyze_cases {r : Except Fault (Option (Act (List Diagnostic)))}
    (h : runOn x (analyze s crew) = (r, y)) :
    ∃ u w, runOn x.2 crew.toolchain = (u, w) ∧
      ((∃ f, u = .error f ∧ r = .error f ∧ y = (x.note (·.enter .analyzing)).beside w) ∨
        ∃ invoke m v, u = .ok invoke ∧ runOn w (measure s invoke) = (m, v) ∧
          ((∃ f, m = .error f ∧ r = .error f ∧ y = (x.note (·.enter .analyzing)).beside v) ∨
            ∃ ds, m = .ok ds ∧ y = ((x.note (·.enter .analyzing)).beside v).note (analyzed ds) ∧
              r = .ok (if ds.isEmpty then none else some (measure s invoke)))) := by
  simp only [analyze, runOn_bind, runOn_setup_note, runOn_setup_beside, Outer.note_world] at h
  rcases hu : runOn x.2 crew.toolchain with ⟨f | invoke, w⟩
  · simp only [hu, Prod.mk.injEq] at h
    exact ⟨_, w, rfl, .inl ⟨f, rfl, h.1.symm, h.2.symm⟩⟩
  · simp only [hu, Outer.beside_world] at h
    rcases hm : runOn w (measure s invoke) with ⟨f | ds, v⟩
    · simp only [hm, Prod.mk.injEq] at h
      exact ⟨_, w, rfl, .inr ⟨invoke, _, v, rfl, hm, .inl ⟨f, rfl, h.1.symm, h.2.symm⟩⟩⟩
    · simp only [hm, runOn_pure, Prod.mk.injEq] at h
      exact ⟨_, w, rfl, .inr ⟨invoke, _, v, rfl, hm, .inr ⟨ds, rfl, h.2.symm, h.1.symm⟩⟩⟩

/-- A crew that is complete is the crew that was asked for. -/
lemma complete_ok {w w' : World} {measure : Act (List Diagnostic)} {fr : Frame σ} {held : σ}
    (h : runOn w (complete s crew measure) = (.ok (fr, held), w')) :
    fr.settings = s ∧ fr.measure = measure ∧ fr.guard = ⟨crew.snapshots, s.maxIncrease, crew.backups⟩ ∧
      ∃ u v, runOn w crew.registry = (.ok fr.registry, u) ∧ runOn u crew.provider = (.ok held, v) ∧
        ((crew.backups = none ∨ s.dryRun = true) ∧ w' = v ∨
          ∃ bs, crew.backups = some bs ∧ runOn v bs.ensure = (.ok (), w')) := by
  simp only [complete, runOn_bind] at h
  rcases hr : runOn w crew.registry with ⟨f | registry, u⟩
  · simp only [hr] at h
    exact absurd (Prod.mk.inj h).1 nofun
  · rcases hp : runOn u crew.provider with ⟨f | held', v⟩
    · simp only [hr, hp] at h
      exact absurd (Prod.mk.inj h).1 nofun
    · simp only [hr, hp] at h
      rcases hb : crew.backups with _ | bs
      · simp only [hb, runOn_pure, Prod.mk.injEq, Except.ok.injEq] at h
        obtain ⟨⟨rfl, rfl⟩, rfl⟩ := h
        exact ⟨rfl, rfl, rfl, u, v, rfl, hp, .inl ⟨.inl rfl, rfl⟩⟩
      · by_cases hd : s.dryRun = true
        · simp only [hb, hd, Bool.not_true, Bool.false_eq_true, if_false, runOn_pure,
            Prod.mk.injEq, Except.ok.injEq] at h
          obtain ⟨⟨rfl, rfl⟩, rfl⟩ := h
          exact ⟨rfl, rfl, rfl, u, v, rfl, hp, .inl ⟨.inr hd, rfl⟩⟩
        · simp only [hb, hd, Bool.not_false, if_true, runOn_bind] at h
          rcases he : runOn v bs.ensure with ⟨f | _, v'⟩
          · simp only [he] at h
            exact absurd (Prod.mk.inj h).1 nofun
          · simp only [he, runOn_pure, Prod.mk.injEq, Except.ok.injEq] at h
            obtain ⟨⟨rfl, rfl⟩, rfl⟩ := h
            exact ⟨rfl, rfl, rfl, u, v, rfl, hp, .inr ⟨bs, rfl, he⟩⟩

lemma prepare_cases {r : Except Fault (Option (Frame σ × σ))} (h : runOn x (prepare s crew) = (r, y)) :
    ∃ u z, runOn x (analyze s crew) = (u, z) ∧
      ((∃ f, u = .error f ∧ r = .error f ∧ y = z) ∨ (u = .ok none ∧ r = .ok none ∧ y = z) ∨
        ∃ measure v w, u = .ok (some measure) ∧ runOn z.2 (complete s crew measure) = (v, w) ∧
          r = v.map some ∧ y = z.beside w) := by
  simp only [prepare, runOn_bind] at h
  rcases hu : runOn x (analyze s crew) with ⟨f | _ | measure, z⟩
  · simp only [hu, Prod.mk.injEq] at h
    exact ⟨_, z, rfl, .inl ⟨f, rfl, h.1.symm, h.2.symm⟩⟩
  · simp only [hu, runOn_pure, Prod.mk.injEq] at h
    exact ⟨_, z, rfl, .inr (.inl ⟨rfl, h.1.symm, h.2.symm⟩)⟩
  · simp only [hu, runOn_bind, runOn_setup_beside] at h
    refine ⟨_, z, rfl, .inr (.inr ⟨measure, ?_⟩)⟩
    rcases hc : runOn z.2 (complete s crew measure) with ⟨f | p, w⟩
    · simp only [hc, Prod.mk.injEq] at h
      exact ⟨_, w, rfl, rfl, h.1.symm, h.2.symm⟩
    · simp only [hc, runOn_pure, Prod.mk.injEq] at h
      exact ⟨_, w, rfl, rfl, h.1.symm, h.2.symm⟩

/-- A run that was set up has measured the tree and completed its crew. -/
lemma prepare_ok {fr : Frame σ} {held : σ} (h : runOn x (prepare s crew) = (.ok (some (fr, held)), y)) :
    ∃ measure z w, runOn x (analyze s crew) = (.ok (some measure), z) ∧
      runOn z.2 (complete s crew measure) = (.ok (fr, held), w) ∧ y = z.beside w := by
  obtain ⟨u, z, hz, ⟨_, -, hr, -⟩ | ⟨-, hr, -⟩ | ⟨measure, v, w, rfl, hc, hr, rfl⟩⟩ := prepare_cases h
  · exact absurd hr nofun
  · exact absurd (Except.ok.inj hr) nofun
  · rcases v with f | p
    · exact absurd hr nofun
    · obtain rfl := Option.some.inj (Except.ok.inj hr)
      exact ⟨measure, z, w, hz, hc, rfl⟩

/-- What is left of the phases when they have come to their end. -/
def State.ended (x : State σ) : Except Fault Unit → Outer σ
  | .ok () => x.outer.note finished
  | .error _ => x.outer

lemma goThrough_cases {fr : Frame σ} {held : σ} {r : Except Fault Unit}
    (h : runOn x (goThrough s fr held) = (r, y)) :
    ∃ t, runOn ((x.note (scheduled s)).inner held)
        (remedyAll fr (x.note (scheduled s)).1.1.schedule) = (r, t) ∧ y = t.ended r := by
  simp only [goThrough, runOn_bind, runOn_setup_note, runOn_setup_kept, runOn_holding] at h
  rcases hv : runOn ((x.note (scheduled s)).inner held)
    (remedyAll fr (x.note (scheduled s)).1.1.schedule) with ⟨f | v, t⟩
  · simp only [hv, Prod.mk.injEq] at h
    obtain ⟨rfl, rfl⟩ := h
    exact ⟨t, rfl, rfl⟩
  · simp only [hv, Prod.mk.injEq] at h
    obtain ⟨rfl, rfl⟩ := h
    exact ⟨t, rfl, rfl⟩

lemma body_cases {r : Except Fault Unit} (h : runOn x (body s crew) = (r, y)) :
    ∃ u z, runOn x (prepare s crew) = (u, z) ∧
      ((∃ f, u = .error f ∧ r = .error f ∧ y = z) ∨
        (u = .ok none ∧ r = .ok () ∧ y = z.note (·.enter .done)) ∨
        ∃ fr held, u = .ok (some (fr, held)) ∧ runOn z (goThrough s fr held) = (r, y)) := by
  simp only [body, runOn_bind] at h
  rcases hu : runOn x (prepare s crew) with ⟨f | _ | ⟨fr, held⟩, z⟩
  · simp only [hu, Prod.mk.injEq] at h
    exact ⟨_, z, rfl, .inl ⟨f, rfl, h.1.symm, h.2.symm⟩⟩
  · simp only [hu, runOn_setup_note, Prod.mk.injEq] at h
    exact ⟨_, z, rfl, .inr (.inl ⟨rfl, h.1.symm, h.2.symm⟩)⟩
  · simp only [hu] at h
    exact ⟨_, z, rfl, .inr (.inr ⟨fr, held, rfl, h⟩)⟩

/-- The state in which a run begins its work. -/
def started (x : Outer σ) : Outer σ := x.note fun _ => { start := x.2.clock }

/-- The state in which a run is reported: after a fault that ends it, it has failed. -/
def Outer.closed (x : Outer σ) : Except Fault Unit → Outer σ
  | .ok () => x
  | .error f => x.note (·.fail f.text)

lemma conclude_cases {r : Except Fault Report} (h : runOn x (conclude s) = (r, y)) :
    ∃ v w, runOn x.2 (deliver s x.1.1.grouping (report s x.1.1 x.2)) = (v, w) ∧
      r = v.map (fun _ => report s x.1.1 x.2) ∧ y = x.beside w := by
  simp only [conclude, runOn_bind, runOn_get, runOn_setup_beside] at h
  rcases hv : runOn x.2 (deliver s x.1.1.grouping (report s x.1.1 x.2)) with ⟨f | v, w⟩
  · simp only [hv, Prod.mk.injEq] at h
    exact ⟨_, w, rfl, h.1.symm, h.2.symm⟩
  · simp only [hv, runOn_pure, Prod.mk.injEq] at h
    exact ⟨_, w, rfl, h.1.symm, h.2.symm⟩

lemma run_cases {r : Except Fault Report} (h : runOn x (run s crew) = (r, y)) :
    ∃ u z, runOn (started x) (body s crew) = (u, z) ∧
      ((∃ f, u = .error f ∧ endsRun f.kind = false ∧ r = .error f ∧ y = z) ∨
        (∀ f, u = .error f → endsRun f.kind = true) ∧ runOn (z.closed u) (conclude s) = (r, y)) := by
  simp only [run, runOn_bind, runOn_get, runOn_setup_note, runOn_outcome] at h
  change runOn (runOn (started x) (body s crew)).2 (match (runOn (started x) (body s crew)).1 with
    | .ok _ => conclude s
    | .error f => if endsRun f.kind = true then _ else throw f) = _ at h
  rcases hu : runOn (started x) (body s crew) with ⟨f | u, z⟩
  · by_cases hf : endsRun f.kind = true
    · simp only [hu, hf, if_true, runOn_bind, runOn_setup_note] at h
      exact ⟨_, z, rfl, .inr ⟨fun g hg => by rwa [← Except.error.inj hg], h⟩⟩
    · simp only [hu, if_neg hf, runOn_throw, Prod.mk.injEq] at h
      exact ⟨_, z, rfl, .inl ⟨f, rfl, by simpa using hf, h.1.symm, h.2.symm⟩⟩
  · simp only [hu] at h
    exact ⟨_, z, rfl, .inr ⟨fun g hg => absurd hg nofun, h⟩⟩

/-- A report that does not tell of a failure tells of a run whose work was done. -/
lemma body_ok_of_status {r : Report} (h : runOn x (run s crew) = (.ok r, y))
    (hs : r.status ≠ "error") : ∃ z w', runOn (started x) (body s crew) = (.ok (), z) ∧
      runOn z.2 (deliver s z.1.1.grouping r) = (.ok (), w') ∧ r = report s z.1.1 z.2 ∧ y = z.beside w' := by
  obtain ⟨u, z, hb, ⟨_, -, -, hr, -⟩ | ⟨-, hcon⟩⟩ := run_cases h
  · exact absurd hr nofun
  · obtain ⟨v, w', hdel, hr, hy⟩ := conclude_cases hcon
    rcases v with f | _
    · exact absurd hr nofun
    · obtain rfl := Except.ok.inj hr
      rcases u with f | _
      · exact absurd rfl hs
      · exact ⟨z, w', hb, hdel, rfl, hy⟩

end Ratchet.Run
