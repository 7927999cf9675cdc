import Ratchet.Proofs.Run.Setup

/-!
Watching the snapshot provider.

A watched provider does what the provider does and notes each call, and whether it was done, beside the
provider's own state. Nothing in a run looks at the notes, so a watched run is the run itself with the
notes of its calls; `run_watched` says so. The notes are kept where no strategy and no toolchain can
reach them.
-/

namespace Ratchet

/-- A call of the snapshot provider, and whether it was done. -/
inductive Call
  | checkpoint (done : Bool)
  | commit (done : Bool)
  | revert (done : Bool)
  deriving DecidableEq, Repr

open Act

variable {σ : Type}

namespace Snapshots

/-- Does what an operation does and notes the call. -/
def watch (call : Bool → Call) (a : Keeping σ Unit) : Keeping (σ × List Call) Unit := fun x =>
  let (r, y) := runOn (x.1.1, x.2) a
  (r, ((y.1, x.1.2 ++ [call r.isOk]), y.2))

/-- A provider whose calls are noted. -/
def watched (ops : Snapshots σ) : Snapshots (σ × List Call) where
  checkpoint label files := watch .checkpoint (ops.checkpoint label files)
  commit label := watch .commit (ops.commit label)
  revert := watch .revert ops.revert

end Snapshots

/-- A guard whose snapshot provider is watched. -/
def Guard.watched (g : Guard σ) : Guard (σ × List Call) := ⟨g.snapshots.watched, g.maxIncrease, g.backups⟩

/-- A crew whose snapshot provider is watched. -/
def Crew.watched (c : Crew σ) : Crew (σ × List Call) where
  toolchain := c.toolchain
  registry := c.registry
  provider := (fun held => (held, [])) <$> c.provider
  snapshots := c.snapshots.watched
  backups := c.backups

namespace Run

/-- The frame of the phases with a watched snapshot provider. -/
def Frame.watched (fr : Frame σ) : Frame (σ × List Call) :=
  ⟨fr.settings, fr.measure, fr.registry, fr.guard.watched⟩

/-- A state without the notes. -/
def State.forget (x : State (σ × List Call)) : State σ := ((x.1.1, x.1.2.1), x.2)

/-- A state without the notes. -/
def Outer.forget (x : Outer (σ × List Call)) : Outer σ := ((x.1.1, x.1.2.map (·.1)), x.2)

/-! ### Steps with and without notes -/

/-- Two computations do the same when the states of the second are seen through a map. -/
def Mirrors {τ υ α : Type} (see : υ → τ) (a : Doing τ α) (b : Doing υ α) : Prop :=
  ∀ x, runOn (see x) a = ((runOn x b).1, see (runOn x b).2)

namespace Mirrors

variable {τ υ α β : Type} {see : υ → τ}

lemma pure (v : α) : Mirrors see (pure v) (pure v) := fun _ => rfl

lemma throw (f : Fault) : Mirrors see (throw f : Doing τ α) (throw f) := fun _ => rfl

lemma ofResult (r : Except Fault α) : Mirrors see (ofResult r : Doing τ α) (ofResult r) := by
  intro x
  rw [runOn_ofResult, runOn_ofResult]

lemma bind {a : Doing τ α} {b : Doing υ α} {k : α → Doing τ β} {l : α → Doing υ β}
    (h : Mirrors see a b) (hk : ∀ v, Mirrors see (k v) (l v)) : Mirrors see (a >>= k) (b >>= l) := by
  intro x
  rw [runOn_bind, runOn_bind, h x]
  rcases runOn x b with ⟨f | v, y⟩
  · rfl
  · exact hk v y

lemma outcome {a : Doing τ α} {b : Doing υ α} (h : Mirrors see a b) :
    Mirrors see (outcome a) (outcome b) := by
  intro x
  rw [runOn_outcome, runOn_outcome, h x]

lemma told {a : Doing τ α} {b : Doing υ α} (meant : FaultKind → Bool) (wrap : Fault → Fault)
    (h : Mirrors see a b) : Mirrors see (told meant wrap a) (told meant wrap b) := by
  intro x
  rw [runOn_told, runOn_told, h x]

lemma ite {a a' : Doing τ α} {b b' : Doing υ α} (c : Prop) [Decidable c] (h : Mirrors see a b)
    (h' : Mirrors see a' b') : Mirrors see (if c then a else a') (if c then b else b') := by
  split
  · exact h
  · exact h'

end Mirrors

/-- A step does what a step with a watched provider does. -/
abbrev Same {α : Type} (a : Step σ α) (b : Step (σ × List Call) α) : Prop := Mirrors State.forget a b

variable {fr : Frame σ} {a : Attempt} {phase : Phase}

lemma same_beside {α : Type} (b : Act α) : Same (σ := σ) (Act.beside b) (Act.beside b) := fun _ => rfl

lemma same_advance (f : Progress → Progress) : Same (σ := σ) (advance f) (advance f) := fun _ => rfl

lemma same_enter (s : Stage) : Same (σ := σ) (enter s) (enter s) := fun _ => rfl

lemma same_progress : Same (σ := σ) progress progress := fun _ => rfl

/-- A step that only looks at the world does the same on both sides. -/
lemma same_get {α : Type} {k : State σ → Step σ α} {l : State (σ × List Call) → Step (σ × List Call) α}
    (h : ∀ x, Same (k x.forget) (l x)) : Same (get >>= k) (get >>= l) := fun x => h x x

lemma same_guarded {α : Type} {b : Keeping σ α} {c : Keeping (σ × List Call) α}
    (h : Mirrors (fun q => (q.1.1, q.2)) b c) : Same (guarded b) (guarded c) := by
  intro x
  rw [runOn_guarded, runOn_guarded]
  exact congrArg (fun q => (q.1, ((x.1.1, q.2.1), q.2.2))) (h x.held)

/-! ### The guard -/

/-- A state of the provider without the notes. -/
abbrev unnoted (q : (σ × List Call) × World) : σ × World := (q.1.1, q.2)

lemma mirrors_watch (call : Bool → Call) (b : Keeping σ Unit) : Mirrors unnoted b (Snapshots.watch call b) :=
  fun _ => rfl

lemma mirrors_fallBack (g : Guard σ) (b : Option String) (f : Fault) :
    Mirrors unnoted (g.fallBack b f) (g.watched.fallBack b f) := by
  obtain ⟨ops, limit, _ | bs⟩ := g
  · exact .throw _
  · rcases b with _ | name
    · exact .throw _
    · exact .bind (.told _ _ fun _ => rfl) fun _ => .pure _

lemma mirrors_rollback (g : Guard σ) (b : Option String) :
    Mirrors unnoted (g.rollback b) (g.watched.rollback b) := by
  refine .bind (.outcome (mirrors_watch _ _)) fun r => ?_
  rcases r with f | _
  · exact .ite _ (mirrors_fallBack g b f) (.throw _)
  · exact .pure _

lemma mirrors_settle (g : Guard σ) (label : String) (before after : Int) (b : Option String) :
    Mirrors unnoted (g.settle label before after b) (g.watched.settle label before after b) :=
  .ite _ (.bind (mirrors_rollback g b) fun _ => .pure _) (.bind (mirrors_watch _ _) fun _ => .pure _)

/-! ### Attempts -/

lemma same_plan : Same (plan fr a phase) (plan fr.watched a phase) := by
  refine .bind (same_enter _) fun _ => .bind (.outcome (same_beside _)) fun r => ?_
  rcases r with f | e
  · exact .ite _ (.pure _) (.throw _)
  · exact .pure _

lemma same_backUp : Same (backUp fr a) (backUp fr.watched a) := by
  obtain ⟨s, measure, registry, ops, limit, _ | bs⟩ := fr
  · exact .pure _
  · exact same_get fun _ => .bind (same_beside _) fun _ => .bind (same_advance _) fun _ => .pure _

lemma same_checkpoint : Same (checkpoint fr a phase) (checkpoint fr.watched a phase) := by
  refine .bind (same_enter _) fun _ => .bind (.outcome same_backUp) fun r => ?_
  rcases r with f | b
  · exact .ofResult _
  · refine .bind (.outcome (same_guarded (mirrors_watch _ _))) fun r => ?_
    rcases r with f | _
    · exact .ofResult _
    · exact .pure _

lemma same_remeasure : Same (remeasure fr) (remeasure fr.watched) :=
  .bind (same_enter _) fun _ => .outcome (same_beside _)

lemma same_edit : Same (edit fr a phase) (edit fr.watched a phase) := by
  refine .bind (same_enter _) fun _ => .bind (.outcome (same_beside _)) fun r => ?_
  rcases r with f | e
  · exact .ite _ (.bind same_remeasure fun _ => .pure _) (.pure _)
  · exact .bind same_remeasure fun _ => .pure _

lemma same_undo : Same (undo fr phase) (undo fr.watched phase) :=
  .bind (same_enter _) fun _ => .bind (same_guarded (mirrors_rollback _ _)) fun _ => .pure _

lemma same_settle (ds : List Diagnostic) : Same (settle fr a phase ds) (settle fr.watched a phase ds) := by
  refine .bind (same_enter _) fun _ =>
    .bind (.outcome (same_guarded (mirrors_settle _ _ _ _ _))) fun r => ?_
  rcases r with f | _ | _
  · exact .ite _ same_undo (.throw _)
  · exact .bind (same_advance _) fun _ => .pure _
  · exact .pure _

lemma same_trial : Same (trial fr a phase) (trial fr.watched a phase) := by
  refine .bind same_checkpoint fun p => .ite _ (.pure _) (.bind same_edit fun q => ?_)
  obtain ⟨p, f | ds⟩ := q
  · exact .ite _ same_undo (.throw _)
  · exact same_settle ds

lemma same_attempt : Same (attempt fr a) (attempt fr.watched a) :=
  same_get fun _ => .bind (.bind same_progress fun _ => .ite _ same_plan same_trial) fun _ =>
    same_get fun _ => .pure _

/-! ### Loops -/

lemma same_pause (s : Settings) : Same (σ := σ) (pause s) (pause s) :=
  .bind same_progress fun _ => .ite _ (.bind (same_beside _) fun _ => same_advance _) (same_advance _)

lemma same_round : Same (round fr a) (round fr.watched a) :=
  .bind (same_pause _) fun _ => .bind same_attempt fun _ => .bind (same_advance _) fun _ =>
    .bind same_progress fun _ => .pure _

lemma same_attempts (c : Category) (left i : Nat) (records : List Diagnostic) :
    Same (attempts fr c left i records) (attempts fr.watched c left i records) := by
  induction left generalizing i records with
  | zero => exact .pure _
  | succ left ih =>
    refine .bind same_round fun o => ?_
    rcases o with _ | next
    · exact .pure _
    · exact ih (i + 1) next

lemma same_remedy (c : Category) : Same (remedy fr c) (remedy fr.watched c) :=
  .bind (same_advance _) fun _ => .bind same_progress fun _ =>
    .ite _ (same_advance _) (same_attempts c _ _ _)

lemma same_remedyAll (ss : List Scheduled) : Same (remedyAll fr ss) (remedyAll fr.watched ss) := by
  induction ss with
  | nil => exact .pure _
  | cons s ss ih =>
    exact .bind same_progress fun _ => .ite _ (.pure _) (.bind (same_remedy _) fun _ => ih)

/-! ### Whole runs -/

/-- A part of a run does what it does with a watched provider. -/
abbrev Alike {α : Type} (a : Setup σ α) (b : Setup (σ × List Call) α) : Prop := Mirrors Outer.forget a b

variable (s : Settings) (crew : Crew σ)

lemma alike_note (f : Progress → Progress) : Alike (σ := σ) (note f) (note f) := fun _ => rfl

lemma alike_beside {α : Type} (b : Act α) : Alike (σ := σ) (Act.beside b) (Act.beside b) := fun _ => rfl

lemma alike_analyze : Alike (analyze s crew) (analyze s crew.watched) :=
  .bind (alike_note _) fun _ => .bind (alike_beside _) fun _ => .bind (alike_beside _) fun _ =>
    .bind (alike_note _) fun _ => .pure _

/-- A frame and a state of its provider as they are when the provider is watched. -/
def noted (p : Frame σ × σ) : Frame (σ × List Call) × (σ × List Call) := (p.1.watched, (p.2, []))

lemma runOn_complete_watched (w : World) (measure : Act (List Diagnostic)) :
    runOn w (complete s crew.watched measure) =
      ((runOn w (complete s crew measure)).1.map noted, (runOn w (complete s crew measure)).2) := by
  simp only [complete, Crew.watched, runOn_bind, runOn_map]
  rcases runOn w crew.registry with ⟨f | registry, u⟩
  · rfl
  · dsimp only
    rcases runOn u crew.provider with ⟨f | held, v⟩
    · rfl
    · dsimp only [Except.map]
      rcases crew.backups with _ | bs
      · rfl
      · dsimp only
        split
        · simp only [runOn_bind]
          rcases runOn v bs.ensure with ⟨f | _, v'⟩ <;> rfl
        · rfl

lemma runOn_prepare_watched (x : Outer (σ × List Call)) :
    (runOn x (prepare s crew.watched)).1 = (runOn x.forget (prepare s crew)).1.map (Option.map noted) ∧
      (runOn x (prepare s crew.watched)).2.forget = (runOn x.forget (prepare s crew)).2 := by
  simp only [prepare, runOn_bind, alike_analyze s crew x]
  rcases runOn x (analyze s crew.watched) with ⟨f | _ | measure, y⟩
  · exact ⟨rfl, rfl⟩
  · exact ⟨rfl, rfl⟩
  · simp only [runOn_bind, runOn_setup_beside, runOn_complete_watched]
    have hy : y.forget.2 = y.2 := rfl
    rw [hy]
    rcases runOn y.2 (complete s crew measure) with ⟨f | p, w⟩
    · exact ⟨rfl, rfl⟩
    · exact ⟨rfl, rfl⟩

lemma alike_holding {α : Type} {held : σ} {b : Step σ α} {c : Step (σ × List Call) α} (h : Same b c) :
    Alike (holding held b) (holding (held, []) c) := by
  intro x
  rw [runOn_holding, runOn_holding]
  exact congrArg (fun p => (p.1, State.outer p.2)) (h (x.inner (held, [])))

lemma alike_goThrough (held : σ) : Alike (goThrough s fr held) (goThrough s fr.watched (held, [])) := by
  refine .bind (alike_note _) fun _ => ?_
  exact fun x => Mirrors.bind (alike_holding (same_remedyAll x.1.1.schedule)) (fun _ => alike_note _) x

lemma alike_body : Alike (body s crew) (body s crew.watched) := by
  intro x
  obtain ⟨hr, hy⟩ := runOn_prepare_watched s crew x
  simp only [body, runOn_bind]
  generalize runOn x.forget (prepare s crew) = p at hr hy ⊢
  generalize runOn x (prepare s crew.watched) = q at hr hy ⊢
  obtain ⟨r, z⟩ := p
  obtain ⟨r', y⟩ := q
  obtain rfl : r' = r.map (Option.map noted) := hr
  obtain rfl : y.forget = z := hy
  rcases r with f | _ | ⟨fr, held⟩
  · rfl
  · rfl
  · exact alike_goThrough s held y

/-- A part that looks at the progress and the world does the same on both sides. -/
lemma alike_get {α : Type} {k : Outer σ → Setup σ α} {l : Outer (σ × List Call) → Setup (σ × List Call) α}
    (h : ∀ x, Alike (k x.forget) (l x)) : Alike (get >>= k) (get >>= l) := fun x => h x x

lemma alike_conclude : Alike (σ := σ) (conclude s) (conclude s) :=
  alike_get fun _ => .bind (alike_beside _) fun _ => .pure _

/-- **Watching changes nothing.** A run with a watched snapshot provider comes to the same report and
leaves the same progress, world and provider. -/
theorem run_watched : Alike (run s crew) (run s crew.watched) := by
  refine alike_get fun _ => .bind (alike_note _) fun _ => .bind (.outcome (alike_body s crew)) fun r => ?_
  rcases r with f | _
  · exact .ite _ (.bind (alike_note _) fun _ => alike_conclude s) (.throw _)
  · exact alike_conclude s

end Run

end Ratchet
