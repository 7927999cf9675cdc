import Ratchet.Proofs.Acts
import Ratchet.Run

/-!
The exits of an attempt.

Every function of an attempt is taken apart once: the lemmas here list the ways in which it ends, each
with the state that its parts left. Proofs about runs go through these lists and never open a function
of an attempt again.
-/

namespace Ratchet.Run

open Act

variable {σ α : Type}

/-- What a step of a run works on. -/
abbrev State (σ : Type) := (Progress × σ) × World

namespace State

/-- The state after a stage was entered. -/
def enter (x : State σ) (s : Stage) : State σ := ((x.1.1.enter s, x.1.2), x.2)

/-- The state with a change of the progress. -/
def advance (x : State σ) (f : Progress → Progress) : State σ := ((f x.1.1, x.1.2), x.2)

/-- What the snapshot provider sees of a state. -/
def held (x : State σ) : σ × World := (x.1.2, x.2)

/-- The state after the snapshot provider did something. -/
def hold (x : State σ) (y : σ × World) : State σ := ((x.1.1, y.1), y.2)

/-- The state after an act. -/
def beside (x : State σ) (w : World) : State σ := (x.1, w)

variable (x : State σ)

@[simp] lemma enter_world (s : Stage) : (x.enter s).2 = x.2 := rfl
@[simp] lemma enter_held (s : Stage) : (x.enter s).held = x.held := rfl
@[simp] lemma advance_world (f : Progress → Progress) : (x.advance f).2 = x.2 := rfl
@[simp] lemma advance_held (f : Progress → Progress) : (x.advance f).held = x.held := rfl
@[simp] lemma hold_world (y : σ × World) : (x.hold y).2 = y.2 := rfl
@[simp] lemma hold_held (y : σ × World) : (x.hold y).held = y := rfl
@[simp] lemma hold_progress (y : σ × World) : (x.hold y).1.1 = x.1.1 := rfl
@[simp] lemma beside_world (w : World) : (x.beside w).2 = w := rfl
@[simp] lemma beside_held (w : World) : (x.beside w).held = (x.1.2, w) := rfl
@[simp] lemma beside_progress (w : World) : (x.beside w).1.1 = x.1.1 := rfl

end State

variable {x y z : State σ} {fr : Frame σ} {a : Attempt} {phase : Phase}

/-! ### Single steps -/

@[simp] lemma runOn_progress : runOn x (progress : Step σ Progress) = (.ok x.1.1, x) := rfl

@[simp] lemma runOn_advance (f : Progress → Progress) :
    runOn x (advance f : Step σ Unit) = (.ok (), x.advance f) := rfl

@[simp] lemma runOn_enter (s : Stage) : runOn x (enter s : Step σ Unit) = (.ok (), x.enter s) := rfl

@[simp] lemma runOn_guarded (a : Keeping σ α) :
    runOn x (guarded a) = ((runOn x.held a).1, x.hold (runOn x.held a).2) := rfl

@[simp] lemma runOn_step_beside (a : Act α) :
    runOn x (Act.beside a) = ((runOn x.2 a).1, x.beside (runOn x.2 a).2) := rfl

/-! ### Planning and checkpoints -/

/-- The phase of an attempt that is only planned. -/
def planned (phase : Phase) : Phase := { phase with dryRun := true }

lemma plan_cases {r : Except Fault Phase} (h : runOn x (plan fr a phase) = (r, y)) :
    ∃ u w, runOn x.2 (fr.registry.apply (a.assignment fr.settings)) = (u, w) ∧
      y = (x.enter .transforming).beside w ∧
      ((∃ e, u = .ok e ∧ r = .ok (withEdits (planned phase) e)) ∨
        (∃ f, u = .error f ∧ f.kind.isTransform = true ∧
          r = .ok { planned phase with transformError := some f.text }) ∨
        (∃ f, u = .error f ∧ f.kind.isTransform = false ∧ r = .error f)) := by
  simp only [plan, runOn_bind, runOn_enter, runOn_outcome, runOn_step_beside, State.enter_world] at h
  rcases hu : runOn x.2 (fr.registry.apply (a.assignment fr.settings)) with ⟨u, w⟩
  rw [hu] at h
  refine ⟨u, w, rfl, ?_⟩
  rcases u with f | e
  · by_cases hf : f.kind.isTransform = true
    · simp only [hf, if_true, runOn_pure, Prod.mk.injEq] at h
      exact ⟨h.2.symm, .inr (.inl ⟨f, rfl, hf, h.1.symm⟩)⟩
    · simp only [if_neg hf, runOn_throw, Prod.mk.injEq] at h
      exact ⟨h.2.symm, .inr (.inr ⟨f, rfl, by simpa using hf, h.1.symm⟩)⟩
  · simp only [runOn_pure, Prod.mk.injEq] at h
    exact ⟨h.2.symm, .inl ⟨e, rfl, h.1.symm⟩⟩

/-- The state with one more backup. -/
def State.backedUp (x : State σ) (b : Backup) : State σ :=
  x.advance fun p => { p with backups := p.backups ++ [b.name] }

lemma backUp_cases {r : Except Fault (Option String)} (h : runOn x (backUp fr a) = (r, y)) :
    (fr.guard.backups = none ∧ r = .ok none ∧ y = x) ∨
      ∃ bs u w, fr.guard.backups = some bs ∧
        runOn x.2 (bs.create (presentFiles x.2 fr.settings a.diagnostics) a.label) = (u, w) ∧
        ((∃ b, u = .ok b ∧ r = .ok (some b.name) ∧ y = (x.beside w).backedUp b) ∨
          ∃ f, u = .error f ∧ r = .error f ∧ y = x.beside w) := by
  rw [backUp] at h
  rcases hb : fr.guard.backups with _ | bs
  · rw [hb, runOn_pure, Prod.mk.injEq] at h
    exact .inl ⟨rfl, h.1.symm, h.2.symm⟩
  · rw [hb] at h
    simp only [runOn_bind, runOn_get, runOn_step_beside] at h
    rcases hu : runOn x.2 (bs.create (presentFiles x.2 fr.settings a.diagnostics) a.label) with ⟨u, w⟩
    rw [hu] at h
    refine .inr ⟨bs, u, w, rfl, hu, ?_⟩
    rcases u with f | b
    · simp only [Prod.mk.injEq] at h
      exact .inr ⟨f, rfl, h.1.symm, h.2.symm⟩
    · simp only [runOn_advance, runOn_pure, Prod.mk.injEq] at h
      exact .inl ⟨b, rfl, h.1.symm, h.2.symm⟩

lemma checkpoint_cases {r : Except Fault Phase} (h : runOn x (checkpoint fr a phase) = (r, y)) :
    (∃ f, runOn (x.enter .checkpointing) (backUp fr a) = (.error f, y) ∧ r = notBegun phase f) ∨
      ∃ b z u v, runOn (x.enter .checkpointing) (backUp fr a) = (.ok b, z) ∧
        runOn z.held (fr.guard.begin a.label (a.diagnostics.map (·.file))) = (u, v) ∧ y = z.hold v ∧
        ((u = .ok () ∧ r = .ok { phase with backup := b }) ∨
          ∃ f, u = .error f ∧ r = notBegun { phase with backup := b } f) := by
  simp only [checkpoint, runOn_bind, runOn_enter, runOn_outcome] at h
  rcases hb : runOn (x.enter .checkpointing) (backUp fr a) with ⟨_ | b, z⟩
  · rename_i f
    rw [hb] at h
    simp only [runOn_ofResult, Prod.mk.injEq] at h
    exact .inl ⟨f, by rw [h.2], h.1.symm⟩
  · rw [hb] at h
    simp only [runOn_bind, runOn_outcome, runOn_guarded] at h
    rcases hu : runOn z.held (fr.guard.begin a.label (a.diagnostics.map (·.file))) with ⟨u, v⟩
    rw [hu] at h
    refine .inr ⟨b, z, u, v, rfl, hu, ?_⟩
    rcases u with f | u
    · simp only [runOn_ofResult, Prod.mk.injEq] at h
      exact ⟨h.2.symm, .inr ⟨f, rfl, h.1.symm⟩⟩
    · simp only [runOn_pure, Prod.mk.injEq] at h
      exact ⟨h.2.symm, .inl ⟨rfl, h.1.symm⟩⟩

/-! ### Editing and measuring -/

/-- The phases that may follow what came of a strategy when its edits are measured. -/
inductive Edited (phase : Phase) : Except Fault Edits → Phase → Prop
  | edits (e : Edits) : Edited phase (.ok e) (withEdits phase e)
  | failed (f : Fault) (hf : f.kind = .transform) :
      Edited phase (.error f) { phase with transformError := some f.text }

lemma edit_cases {r : Except Fault (Phase × Except Fault (List Diagnostic))}
    (h : runOn x (edit fr a phase) = (r, y)) :
    ∃ u w, runOn x.2 (fr.registry.apply (a.assignment fr.settings)) = (u, w) ∧
      ((∃ f, u = .error f ∧ f.kind ≠ .transform ∧ r = .ok (phase, .error f) ∧
          y = (x.enter .transforming).beside w) ∨
        ∃ phase' m v, Edited phase u phase' ∧ runOn w fr.measure = (m, v) ∧ r = .ok (phase', m) ∧
          y = (((x.enter .transforming).beside w).enter .measuring).beside v) := by
  simp only [edit, remeasure, runOn_bind, runOn_enter, runOn_outcome, runOn_step_beside,
    State.enter_world] at h
  rcases hu : runOn x.2 (fr.registry.apply (a.assignment fr.settings)) with ⟨u, w⟩
  rw [hu] at h
  refine ⟨u, w, rfl, ?_⟩
  rcases u with f | e
  · by_cases hf : f.kind = .transform
    · simp only [hf, beq_self_eq_true, if_true, runOn_bind, runOn_enter, runOn_outcome,
        runOn_step_beside, runOn_pure, Prod.mk.injEq] at h
      exact .inr ⟨_, _, _, .failed f hf, rfl, h.1.symm, h.2.symm⟩
    · simp only [beq_iff_eq, if_neg hf, runOn_pure, Prod.mk.injEq] at h
      exact .inl ⟨f, rfl, hf, h.1.symm, h.2.symm⟩
  · simp only [runOn_bind, runOn_enter, runOn_outcome, runOn_step_beside, runOn_pure,
      Prod.mk.injEq] at h
    exact .inr ⟨_, _, _, .edits e, rfl, h.1.symm, h.2.symm⟩

/-- A fault of the strategy or of the measurement is not lost: `edit` answers it. -/
lemma edit_answers (x : State σ) (fr : Frame σ) (a : Attempt) (phase : Phase) :
    ∃ p m y, runOn x (edit fr a phase) = (.ok (p, m), y) := by
  rcases he : runOn x (edit fr a phase) with ⟨r, y⟩
  obtain ⟨u, w, -, ⟨f, -, -, hr, -⟩ | ⟨p, m, v, -, -, hr, -⟩⟩ := edit_cases he
  · exact ⟨phase, .error f, y, by rw [hr]⟩
  · exact ⟨p, m, y, by rw [hr]⟩

/-! ### Keeping and undoing -/

lemma fallBack_cases {g : Guard σ} {q q' : σ × World} {b : Option String} {f : Fault}
    {r : Except Fault Unit} (h : runOn q (g.fallBack b f) = (r, q')) :
    (r = .error (.wrap .rollback "Revert failed and no backup is available" f) ∧ q' = q) ∨
      ∃ bs name u w, g.backups = some bs ∧ b = some name ∧ runOn q.2 (bs.restore name) = (u, w) ∧
        q' = (q.1, w) ∧
        ((∃ k, u = .ok k ∧ r = .ok ()) ∨
          (∃ f', u = .error f' ∧ r = .error (if f'.kind.isBackup then
            .wrap .rollback ("Revert failed and backup " ++ name ++ " could not be restored") f'
            else f'))) := by
  unfold Guard.fallBack at h
  split at h
  · rename_i bs name hbs
    simp only [runOn_bind, runOn_told] at h
    rcases hu : runOn q.2 (bs.restore name) with ⟨u, w⟩
    refine .inr ⟨bs, name, u, w, hbs, rfl, hu, ?_⟩
    have hq : runOn q (Act.beside (bs.restore name)) = (u, (q.1, w)) := by
      rw [← Prod.mk.eta (p := q), runOn_beside, hu]
    rw [hq] at h
    rcases u with f' | k
    · simp only [Except.mapError, Prod.mk.injEq] at h
      exact ⟨h.2.symm, .inr ⟨f', rfl, h.1.symm⟩⟩
    · simp only [Except.mapError, runOn_pure, Prod.mk.injEq] at h
      exact ⟨h.2.symm, .inl ⟨k, rfl, h.1.symm⟩⟩
  · rw [runOn_throw, Prod.mk.injEq] at h
    exact .inl ⟨h.1.symm, h.2.symm⟩

lemma rollback_cases {g : Guard σ} {q q' : σ × World} {b : Option String}
    {r : Except Fault Unit} (h : runOn q (g.rollback b) = (r, q')) :
    ∃ u v, runOn q g.snapshots.revert = (u, v) ∧
      ((u = .ok () ∧ r = .ok () ∧ q' = v) ∨
        (∃ f, u = .error f ∧ f.kind ≠ .snapshot ∧ r = .error f ∧ q' = v) ∨
        (∃ f, u = .error f ∧ f.kind = .snapshot ∧ runOn v (g.fallBack b f) = (r, q'))) := by
  simp only [Guard.rollback, runOn_bind, runOn_outcome] at h
  rcases hu : runOn q g.snapshots.revert with ⟨u, v⟩
  rw [hu] at h
  refine ⟨u, v, rfl, ?_⟩
  rcases u with f | u
  · by_cases hf : f.kind = .snapshot
    · simp only [hf, beq_self_eq_true, if_true] at h
      exact .inr (.inr ⟨f, rfl, hf, h⟩)
    · simp only [beq_iff_eq, if_neg hf, runOn_throw, Prod.mk.injEq] at h
      exact .inr (.inl ⟨f, rfl, hf, h.1.symm, h.2.symm⟩)
  · simp only [runOn_pure, Prod.mk.injEq] at h
    exact .inl ⟨rfl, h.1.symm, h.2.symm⟩

lemma guard_settle_cases {g : Guard σ} {q q' : σ × World} {label : String} {before after : Int}
    {b : Option String} {r : Except Fault Bool}
    (h : runOn q (g.settle label before after b) = (r, q')) :
    (g.isRegression before after = true ∧
        ∃ u, runOn q (g.rollback b) = (u, q') ∧ r = u.map fun _ => true) ∨
      (g.isRegression before after = false ∧
        ∃ u, runOn q (g.snapshots.commit label) = (u, q') ∧ r = u.map fun _ => false) := by
  rw [Guard.settle] at h
  by_cases hr : g.isRegression before after = true
  · rw [if_pos hr, runOn_bind] at h
    refine .inl ⟨hr, ?_⟩
    rcases hu : runOn q (g.rollback b) with ⟨f | u, v⟩
    · simp only [hu, Prod.mk.injEq] at h
      exact ⟨.error f, by rw [h.2], h.1.symm⟩
    · simp only [hu, runOn_pure, Prod.mk.injEq] at h
      exact ⟨.ok u, by rw [h.2], h.1.symm⟩
  · rw [if_neg hr, runOn_bind] at h
    refine .inr ⟨by simpa using hr, ?_⟩
    rcases hu : runOn q (g.snapshots.commit label) with ⟨f | u, v⟩
    · simp only [hu, Prod.mk.injEq] at h
      exact ⟨.error f, by rw [h.2], h.1.symm⟩
    · simp only [hu, runOn_pure, Prod.mk.injEq] at h
      exact ⟨.ok u, by rw [h.2], h.1.symm⟩

lemma undo_cases {r : Except Fault Phase} (h : runOn x (undo fr phase) = (r, y)) :
    ∃ u v, runOn x.held (fr.guard.rollback phase.backup) = (u, v) ∧ y = (x.enter .reverting).hold v ∧
      r = u.map fun _ => { phase with rolledBack := true } := by
  simp only [undo, Guard.discard, runOn_bind, runOn_enter, runOn_guarded, State.enter_held] at h
  rcases hu : runOn x.held (fr.guard.rollback phase.backup) with ⟨u, v⟩
  rw [hu] at h
  refine ⟨u, v, rfl, ?_⟩
  rcases u with f | u
  · simp only [Prod.mk.injEq] at h
    exact ⟨h.2.symm, h.1.symm⟩
  · simp only [runOn_pure, Prod.mk.injEq] at h
    exact ⟨h.2.symm, h.1.symm⟩

@[simp] lemma withCount_before (p : Phase) (n : Nat) : (withCount p n).before = p.before := rfl
@[simp] lemma withCount_backup (p : Phase) (n : Nat) : (withCount p n).backup = p.backup := rfl

/-- The stage in which an attempt that was measured is settled. -/
def settling (fr : Frame σ) (phase : Phase) (ds : List Diagnostic) : Stage :=
  if fr.guard.isRegression phase.before ds.length then .reverting else .committing

/-- The state that keeps a measurement. -/
def State.measured (x : State σ) (ds : List Diagnostic) : State σ :=
  x.advance fun p => { p with current := ds.length, diagnostics := ds }

lemma settle_cases {ds : List Diagnostic} {r : Except Fault Phase}
    (h : runOn x (settle fr a phase ds) = (r, y)) :
    ∃ u v, runOn x.held (fr.guard.settle a.label phase.before ds.length phase.backup) = (u, v) ∧
      ((u = .ok true ∧ r = .ok { withCount phase ds.length with reverted := true } ∧
          y = (x.enter (settling fr phase ds)).hold v) ∨
        (u = .ok false ∧ r = .ok (withCount phase ds.length) ∧
          y = ((x.enter (settling fr phase ds)).hold v).measured ds) ∨
        (∃ f, u = .error f ∧ f.kind = .snapshot ∧ runOn ((x.enter (settling fr phase ds)).hold v)
          (undo fr { withCount phase ds.length with error := some ("commit failed: " ++ f.text) }) = (r, y)) ∨
        (∃ f, u = .error f ∧ f.kind ≠ .snapshot ∧ r = .error f ∧
          y = (x.enter (settling fr phase ds)).hold v)) := by
  simp only [settle, runOn_bind, runOn_enter, runOn_outcome, runOn_guarded, State.enter_held,
    withCount_before, withCount_backup] at h
  rcases hu : runOn x.held (fr.guard.settle a.label phase.before ds.length phase.backup) with ⟨u, v⟩
  rw [hu] at h
  refine ⟨u, v, rfl, ?_⟩
  rcases u with f | _ | _
  · by_cases hf : f.kind = .snapshot
    · simp only [hf, beq_self_eq_true, if_true] at h
      exact .inr (.inr (.inl ⟨f, rfl, hf, h⟩))
    · simp only [beq_iff_eq, if_neg hf, runOn_throw, Prod.mk.injEq] at h
      exact .inr (.inr (.inr ⟨f, rfl, hf, h.1.symm, h.2.symm⟩))
  · simp only [runOn_bind, runOn_advance, runOn_pure, Prod.mk.injEq] at h
    exact .inr (.inl ⟨rfl, h.1.symm, h.2.symm⟩)
  · simp only [runOn_pure, Prod.mk.injEq] at h
    exact .inl ⟨rfl, h.1.symm, h.2.symm⟩

/-! ### Whole attempts -/

lemma trial_cases {r : Except Fault Phase} (h : runOn x (trial fr a phase) = (r, y)) :
    (∃ f, runOn x (checkpoint fr a phase) = (.error f, y) ∧ r = .error f) ∨
      (∃ p, runOn x (checkpoint fr a phase) = (.ok p, y) ∧ p.failed = true ∧ r = .ok p) ∨
      ∃ p z p' m u, runOn x (checkpoint fr a phase) = (.ok p, z) ∧ p.failed = false ∧
        runOn z (edit fr a p) = (.ok (p', m), u) ∧
        ((∃ ds, m = .ok ds ∧ runOn u (settle fr a p' ds) = (r, y)) ∨
          (∃ f, m = .error f ∧ failsAttempt f.kind = true ∧
            runOn u (undo fr { p' with error := some f.text, timeout := isTimeout f.kind }) = (r, y)) ∨
          (∃ f, m = .error f ∧ failsAttempt f.kind = false ∧ r = .error f ∧ y = u)) := by
  rw [trial, runOn_bind] at h
  rcases hc : runOn x (checkpoint fr a phase) with ⟨f | p, z⟩
  · rw [hc, Prod.mk.injEq] at h
    exact .inl ⟨f, by rw [h.2], h.1.symm⟩
  · rw [hc] at h
    by_cases hp : p.failed = true
    · simp only [hp, if_true, runOn_pure, Prod.mk.injEq] at h
      exact .inr (.inl ⟨p, by rw [h.2], hp, h.1.symm⟩)
    · simp only [if_neg hp, runOn_bind] at h
      obtain ⟨p', m, u, he⟩ := edit_answers z fr a p
      rw [he] at h
      refine .inr (.inr ⟨p, z, p', m, u, rfl, by simpa using hp, he, ?_⟩)
      rcases m with f | ds
      · by_cases hf : failsAttempt f.kind = true
        · simp only [hf, if_true] at h
          exact .inr (.inl ⟨f, rfl, hf, h⟩)
        · simp only [if_neg hf, runOn_throw, Prod.mk.injEq] at h
          exact .inr (.inr ⟨f, rfl, by simpa using hf, h.1.symm, h.2.symm⟩)
      · exact .inl ⟨ds, rfl, h⟩

lemma work_cases {r : Except Fault Phase} (h : runOn x (work fr a) = (r, y)) :
    (fr.settings.dryRun = true ∧ runOn x (plan fr a (a.blank x.1.1.current)) = (r, y)) ∨
      (fr.settings.dryRun = false ∧ runOn x (trial fr a (a.blank x.1.1.current)) = (r, y)) := by
  simp only [work, runOn_bind, runOn_progress] at h
  by_cases hd : fr.settings.dryRun = true
  · simp only [if_pos hd] at h
    exact .inl ⟨hd, h⟩
  · simp only [if_neg hd] at h
    exact .inr ⟨by simpa using hd, h⟩

lemma attempt_cases {r : Except Fault Phase} (h : runOn x (attempt fr a) = (r, y)) :
    ∃ u d, runOn x (work fr a) = (u, y) ∧ r = u.map fun p => { p with duration := d } := by
  simp only [attempt, runOn_bind, runOn_get] at h
  rcases hu : runOn x (work fr a) with ⟨f | p, z⟩
  · simp only [hu, Prod.mk.injEq] at h
    exact ⟨.error f, 0, by rw [h.2], h.1.symm⟩
  · simp only [hu, runOn_pure, Prod.mk.injEq] at h
    exact ⟨.ok p, _, by rw [h.2], h.1.symm⟩

/-! ### Rounds -/

/-- The state after the wait before an attempt. -/
def State.paused (x : State σ) (s : Settings) : State σ :=
  (if x.1.1.attempts != 0 && s.phaseDelay != 0 then
    x.beside ((x.2.note (.sleep s.phaseDelay)).elapse s.phaseDelay) else x).advance
      fun p => { p with attempts := p.attempts + 1 }

lemma runOn_pause (s : Settings) : runOn x (pause s : Step σ Unit) = (.ok (), x.paused s) := by
  simp only [pause, runOn_bind, runOn_progress, State.paused]
  split
  · simp only [runOn_bind, runOn_step_beside, runOn_sleep, runOn_advance]
  · exact runOn_advance _

/-- The state with one more phase in the log. -/
def State.logged (x : State σ) (p : Phase) : State σ :=
  x.advance fun q => { q with phases := q.phases ++ [p] }

lemma round_cases {r : Except Fault (Option (List Diagnostic))} (h : runOn x (round fr a) = (r, y)) :
    ∃ u z, runOn (x.paused fr.settings) (attempt fr a) = (u, z) ∧
      ((∃ f, u = .error f ∧ r = .error f ∧ y = z) ∨
        ∃ p, u = .ok p ∧ y = z.logged p ∧
          r = .ok (if endsCategory y.1.1 p || (recordsOf y.1.1 a.category).isEmpty then none
            else some (recordsOf y.1.1 a.category))) := by
  simp only [round, runOn_bind, runOn_pause] at h
  rcases hu : runOn (x.paused fr.settings) (attempt fr a) with ⟨f | p, z⟩
  · simp only [hu, Prod.mk.injEq] at h
    exact ⟨_, _, rfl, .inl ⟨f, rfl, h.1.symm, h.2.symm⟩⟩
  · simp only [hu, runOn_advance, runOn_progress, runOn_pure, Prod.mk.injEq] at h
    obtain ⟨rfl, rfl⟩ := h
    exact ⟨_, _, rfl, .inr ⟨p, rfl, rfl, rfl⟩⟩

/-- A round faults as its attempt does, and leaves what the attempt leaves. -/
lemma round_error_iff {f : Fault} :
    runOn x (round fr a) = (.error f, y) ↔ runOn (x.paused fr.settings) (work fr a) = (.error f, y) := by
  rcases hr : runOn x (round fr a) with ⟨r, z⟩
  obtain ⟨u, v, hu, h⟩ := round_cases hr
  obtain ⟨q, d, hq, rfl⟩ := attempt_cases hu
  rw [hq]
  rcases q with g | q
  · obtain ⟨e, he, rfl, rfl⟩ | ⟨p, hp, -⟩ := h
    · obtain rfl := Except.error.inj he
      simp only [Prod.mk.injEq, Except.error.injEq]
    · exact absurd hp nofun
  · obtain ⟨e, he, -⟩ | ⟨p, -, -, rfl⟩ := h
    · exact absurd he nofun
    · simp only [Prod.mk.injEq, reduceCtorEq, false_and]

end Ratchet.Run
