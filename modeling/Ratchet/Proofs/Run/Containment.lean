import Ratchet.Proofs.Run.Calls
import Ratchet.Proofs.Run.Course

/-!
Failures that a run contains.

A fault that is met in an attempt is borne when its kind is one that the run expects at that point: it
fails the attempt, or it ends the run with a report. A fault of another kind goes out of the run, or ends
the run with a checkpoint still open. `contained_iff` says that a run is contained exactly when every
fault it meets is borne: it answers a report, says so when it could not be set up, and settles every
checkpoint.
-/

namespace Ratchet.Run

open Act

variable {σ : Type}

/-! ### Faults that an attempt meets -/

/-- What a run was doing when it met a fault. -/
inductive Duty
  | plan
  | checkpoint
  | edit
  | commit
  | rollback
  deriving DecidableEq, Repr

/-- Whether a run bears a fault of a kind at a duty. An open checkpoint bears less: what the strategy or
the measurement raises has to fail the attempt, and a commit has to fail as a snapshot. -/
def Duty.bears : Duty → FaultKind → Bool
  | edit, k => failsAttempt k
  | commit, k => k == .snapshot
  | _, k => endsRun k

/-- What an attempt that may edit comes to, when its checkpoint is taken and what was edited is measured. -/
def Measures (fr : Frame σ) (a : Attempt) (x : State σ) (p : Phase) (m : Except Fault (List Diagnostic))
    (z : State σ) : Prop :=
  fr.settings.dryRun = false ∧ ∃ q y, runOn x (checkpoint fr a (a.blank x.1.1.current)) = (.ok q, y) ∧
    q.failed = false ∧ runOn y (edit fr a q) = (.ok (p, m), z)

/-- The faults that an attempt meets and does not turn into a phase on the spot. -/
inductive Meets (fr : Frame σ) (a : Attempt) (x : State σ) : Duty → Fault → Prop
  | plan {f : Fault} {y : State σ} (hd : fr.settings.dryRun = true)
      (h : runOn x (plan fr a (a.blank x.1.1.current)) = (.error f, y)) : Meets fr a x .plan f
  | checkpoint {f : Fault} {y : State σ} (hd : fr.settings.dryRun = false)
      (h : runOn x (checkpoint fr a (a.blank x.1.1.current)) = (.error f, y)) : Meets fr a x .checkpoint f
  | edit {p : Phase} {f : Fault} {z : State σ} (hm : Measures fr a x p (.error f) z) : Meets fr a x .edit f
  | failed {p : Phase} {f g : Fault} {z : State σ} {q : σ × World} (hm : Measures fr a x p (.error g) z)
      (hg : failsAttempt g.kind = true)
      (h : runOn z.held (fr.guard.rollback p.backup) = (.error f, q)) : Meets fr a x .rollback f
  | commit {p : Phase} {f : Fault} {ds : List Diagnostic} {z : State σ} {q : σ × World}
      (hm : Measures fr a x p (.ok ds) z) (hr : fr.guard.isRegression p.before ds.length = false)
      (h : runOn z.held (fr.guard.snapshots.commit a.label) = (.error f, q)) : Meets fr a x .commit f
  | regression {p : Phase} {f : Fault} {ds : List Diagnostic} {z : State σ} {q : σ × World}
      (hm : Measures fr a x p (.ok ds) z) (hr : fr.guard.isRegression p.before ds.length = true)
      (h : runOn z.held (fr.guard.rollback p.backup) = (.error f, q)) (hf : f.kind ≠ .snapshot) :
      Meets fr a x .rollback f
  | unsettled {p : Phase} {f g : Fault} {ds : List Diagnostic} {z : State σ} {q q' : σ × World}
      (hm : Measures fr a x p (.ok ds) z)
      (hs : runOn z.held (fr.guard.settle a.label p.before ds.length p.backup) = (.error g, q))
      (hg : g.kind = .snapshot) (h : runOn q (fr.guard.rollback p.backup) = (.error f, q')) :
      Meets fr a x .rollback f

/-- Whether a fault goes out of an attempt: what fails the attempt, or its commit, does not. -/
def Duty.leaves : Duty → FaultKind → Prop
  | edit, k => failsAttempt k = false
  | commit, k => k ≠ .snapshot
  | _, _ => True

variable {fr : Frame σ} {a : Attempt} {x y z : State σ} {p : Phase} {f : Fault}

/-! ### What an attempt makes of its faults -/

lemma runOn_work_plan (hd : fr.settings.dryRun = true) :
    runOn x (work fr a) = runOn x (plan fr a (a.blank x.1.1.current)) := by
  simp only [work, runOn_bind, runOn_progress, if_pos hd]

lemma runOn_work_trial (hd : fr.settings.dryRun = false) :
    runOn x (work fr a) = runOn x (trial fr a (a.blank x.1.1.current)) := by
  simp only [work, runOn_bind, runOn_progress, hd, Bool.false_eq_true, if_false]

lemma runOn_work_refused (hd : fr.settings.dryRun = false)
    (h : runOn x (checkpoint fr a (a.blank x.1.1.current)) = (.error f, y)) :
    runOn x (work fr a) = (.error f, y) := by
  rw [runOn_work_trial hd, trial, runOn_bind_error _ h]

/-- An attempt whose edits were measured settles them, undoes them, or goes out with the fault. -/
lemma runOn_work_measured {m : Except Fault (List Diagnostic)} (h : Measures fr a x p m z) :
    runOn x (work fr a) = match m with
      | .ok ds => runOn z (settle fr a p ds)
      | .error f =>
        if failsAttempt f.kind = true then
          runOn z (undo fr { p with error := some f.text, timeout := isTimeout f.kind })
        else (.error f, z) := by
  obtain ⟨hd, q, y, hc, hq, he⟩ := h
  rw [runOn_work_trial hd, trial, runOn_bind_ok _ hc, runOn_ite, if_neg (by simp [hq]),
    runOn_bind_ok _ he]
  rcases m with f | ds
  · exact runOn_ite _ _ _
  · rfl

lemma runOn_undo_error {q : σ × World} (h : runOn x.held (fr.guard.rollback p.backup) = (.error f, q)) :
    runOn x (undo fr p) = (.error f, (x.enter .reverting).hold q) := by
  rcases hu : runOn x (undo fr p) with ⟨r, y⟩
  obtain ⟨u, v, hv, rfl, rfl⟩ := undo_cases hu
  obtain ⟨rfl, rfl⟩ := Prod.mk.inj (hv.symm.trans h)
  rfl

lemma runOn_guard_commit {ds : List Diagnostic} {q : σ × World}
    (hr : fr.guard.isRegression p.before ds.length = false)
    (h : runOn x.held (fr.guard.snapshots.commit a.label) = (.error f, q)) :
    runOn x.held (fr.guard.settle a.label p.before ds.length p.backup) = (.error f, q) := by
  rw [Guard.settle, runOn_ite, if_neg (by simp [hr]), runOn_bind_error _ h]

lemma runOn_guard_regression {ds : List Diagnostic} {q : σ × World}
    (hr : fr.guard.isRegression p.before ds.length = true)
    (h : runOn x.held (fr.guard.rollback p.backup) = (.error f, q)) :
    runOn x.held (fr.guard.settle a.label p.before ds.length p.backup) = (.error f, q) := by
  rw [Guard.settle, runOn_ite, if_pos hr, runOn_bind_error _ h]

/-- A settlement that fails as a snapshot is undone; any other fault of it goes out. -/
lemma runOn_settle_error {ds : List Diagnostic} {q : σ × World}
    (h : runOn x.held (fr.guard.settle a.label p.before ds.length p.backup) = (.error f, q)) :
    runOn x (settle fr a p ds) = if f.kind = .snapshot then
        runOn ((x.enter (settling fr p ds)).hold q)
          (undo fr { withCount p ds.length with error := some ("commit failed: " ++ f.text) })
      else (.error f, (x.enter (settling fr p ds)).hold q) := by
  rcases hr : runOn x (settle fr a p ds) with ⟨r, y⟩
  obtain ⟨u, v, hu, hc⟩ := settle_cases hr
  obtain ⟨rfl, rfl⟩ := Prod.mk.inj (hu.symm.trans h)
  obtain ⟨hu, -, -⟩ | ⟨hu, -, -⟩ | ⟨g, hg, hk, hr⟩ | ⟨g, hg, hk, hr, rfl⟩ := hc
  · exact absurd hu nofun
  · exact absurd hu nofun
  · obtain rfl := Except.error.inj hg
    rw [if_pos hk, hr]
  · obtain rfl := Except.error.inj hg
    rw [if_neg hk, hr]

/-- A fault that goes out of an attempt was met in it. -/
lemma Meets.of_work (h : runOn x (work fr a) = (.error f, y)) : ∃ d, Meets fr a x d f ∧ d.leaves f.kind := by
  obtain ⟨hd, hp⟩ | ⟨hd, ht⟩ := work_cases h
  · exact ⟨.plan, .plan hd hp, trivial⟩
  · obtain ⟨g, hc, hg⟩ | ⟨q, -, -, hr⟩ | ⟨q, z, p, m, u, hc, hq, he, hm⟩ := trial_cases ht
    · obtain rfl := Except.error.inj hg
      exact ⟨.checkpoint, .checkpoint hd hc, trivial⟩
    · exact absurd hr nofun
    · have hmeas : Measures fr a x p m u := ⟨hd, q, z, hc, hq, he⟩
      obtain ⟨ds, rfl, hs⟩ | ⟨g, rfl, hg, hu⟩ | ⟨g, rfl, hg, hr, -⟩ := hm
      · obtain ⟨w, v, hw, ⟨-, hr, -⟩ | ⟨-, hr, -⟩ | ⟨g, rfl, hk, hr⟩ | ⟨g, rfl, hk, hr, -⟩⟩ := settle_cases hs
        · exact absurd hr nofun
        · exact absurd hr nofun
        · obtain ⟨o, v', ho, -, hf⟩ := undo_cases hr
          rcases o with g' | o
          · obtain rfl := Except.error.inj hf
            exact ⟨.rollback, .unsettled hmeas hw hk ho, trivial⟩
          · exact absurd hf nofun
        · obtain rfl := Except.error.inj hr
          obtain ⟨hreg, o, ho, hf⟩ | ⟨hreg, o, ho, hf⟩ := guard_settle_cases hw
          · rcases o with g' | o
            · obtain rfl := Except.error.inj hf
              exact ⟨.rollback, .regression hmeas hreg ho hk, trivial⟩
            · exact absurd hf nofun
          · rcases o with g' | o
            · obtain rfl := Except.error.inj hf
              exact ⟨.commit, .commit hmeas hreg ho, hk⟩
            · exact absurd hf nofun
      · obtain ⟨o, v, ho, -, hf⟩ := undo_cases hu
        rcases o with g' | o
        · obtain rfl := Except.error.inj hf
          exact ⟨.rollback, .failed hmeas hg ho, trivial⟩
        · exact absurd hf nofun
      · obtain rfl := Except.error.inj hr
        exact ⟨.edit, .edit hmeas, hg⟩

/-! ### Calls of an attempt -/

section Watched

variable {fr : Frame σ} {a : Attempt} {x y z : State (σ × List Call)} {p : Phase} {f : Fault}

/-- Whether a checkpoint is open in a state with a watched provider. -/
def State.opened (x : State (σ × List Call)) : Option Bool := Call.after x.1.2.2

lemma after_watch {call : Bool → Call} {b : Keeping σ Unit} {q q' : (σ × List Call) × World}
    {r : Except Fault Unit} (h : runOn q (Snapshots.watch call b) = (r, q')) :
    Call.after q'.1.2 = Call.step (Call.after q.1.2) (call r.isOk) := by
  obtain ⟨rfl, rfl⟩ := Prod.mk.inj h
  rw [Call.after_append]
  rfl

/-- A rollback reverts, whatever comes of it. -/
lemma after_rollback {g : Guard σ} {b : Option String} {q q' : (σ × List Call) × World}
    {r : Except Fault Unit} (h : runOn q (g.watched.rollback b) = (r, q'))
    (ho : Call.after q.1.2 ≠ none) : Call.after q'.1.2 = some false := by
  obtain ⟨u, v, hv, hr⟩ := rollback_cases h
  have hlog : Call.after v.1.2 = some false := by
    rw [after_watch hv]
    rcases hq : Call.after q.1.2 with _ | o
    · exact absurd hq ho
    · cases o <;> rfl
  obtain ⟨-, -, rfl⟩ | ⟨_, -, -, -, rfl⟩ | ⟨_, -, -, hf⟩ := hr
  · exact hlog
  · exact hlog
  · obtain ⟨-, rfl⟩ | ⟨_, _, _, w, -, -, -, rfl, -⟩ := fallBack_cases hf
    · exact hlog
    · exact hlog

lemma opened_backUp {r : Except Fault (Option String)} (h : runOn x (backUp fr.watched a) = (r, y)) :
    y.opened = x.opened := by
  obtain ⟨-, -, rfl⟩ | ⟨_, _, w, -, -, ⟨b, -, -, rfl⟩ | ⟨_, -, -, rfl⟩⟩ := backUp_cases h
  · rfl
  · rfl
  · rfl

/-- Whether a checkpoint lets an attempt begin. -/
def begins : Except Fault Phase → Bool
  | .ok q => !q.failed
  | .error _ => false

lemma begins_notBegun (p : Phase) (f : Fault) : begins (notBegun p f) = false := by
  unfold notBegun
  split <;> rfl

/-- A checkpoint is open when an attempt begins, and only then. -/
lemma opened_checkpoint {r : Except Fault Phase} (hx : x.opened = some false) (hp : p.failed = false)
    (h : runOn x (checkpoint fr.watched a p) = (r, y)) : y.opened = some (begins r) := by
  obtain ⟨f, hb, rfl⟩ | ⟨b, z, u, v, hb, hu, rfl, hr⟩ := checkpoint_cases h
  · rw [opened_backUp hb, begins_notBegun]
    exact hx
  · have hz : z.opened = some false := (opened_backUp hb).trans hx
    have hv : Call.after v.1.2 = some u.isOk := by
      rw [after_watch hu]
      exact congrArg (Call.step · _) hz
    refine hv.trans (congrArg some ?_)
    obtain ⟨rfl, rfl⟩ | ⟨f, rfl, rfl⟩ := hr
    · exact (congrArg not hp).symm
    · rw [notBegun]
      split <;> rfl

lemma opened_edit {m : Phase × Except Fault (List Diagnostic)}
    (h : runOn x (edit fr.watched a p) = (.ok m, y)) : y.opened = x.opened := by
  obtain ⟨_, w, -, ⟨_, -, -, -, rfl⟩ | ⟨_, _, v, -, -, -, rfl⟩⟩ := edit_cases h
  · rfl
  · rfl

lemma opened_measures {m : Except Fault (List Diagnostic)} (hx : x.opened = some false)
    (h : Measures fr.watched a x p m z) : z.opened = some true := by
  obtain ⟨-, q, y, hc, hq, he⟩ := h
  rw [opened_edit he, opened_checkpoint hx rfl hc]
  simp [begins, hq]

lemma opened_undo {r : Except Fault Phase} (hx : x.opened ≠ none)
    (h : runOn x (undo fr.watched p) = (r, y)) : y.opened = some false := by
  obtain ⟨_, v, hv, rfl, -⟩ := undo_cases h
  exact after_rollback hv hx

/-- What comes of a settlement settles the checkpoint, unless it is a commit that is not done. -/
lemma after_settle {ds : List Diagnostic} {q : (σ × List Call) × World} {u : Except Fault Bool}
    (hx : x.opened = some true)
    (h : runOn x.held (fr.watched.guard.settle a.label p.before ds.length p.backup) = (u, q)) :
    Call.after q.1.2 = some (!u.isOk && !fr.guard.isRegression p.before ds.length) := by
  obtain ⟨hr, o, ho, rfl⟩ | ⟨hr, o, ho, rfl⟩ := guard_settle_cases h
  · have hr' : fr.guard.isRegression p.before ds.length = true := hr
    rw [after_rollback ho (by rw [State.held]; exact fun h0 => nomatch hx.symm.trans h0), hr']
    simp
  · have hr' : fr.guard.isRegression p.before ds.length = false := hr
    rw [after_watch ho, hr']
    refine (congrArg (Call.step · _) hx).trans ?_
    rcases o with f | o <;> rfl

lemma opened_settle_ok {ds : List Diagnostic} {q : Phase} (hx : x.opened = some true)
    (h : runOn x (settle fr.watched a p ds) = (.ok q, y)) : y.opened = some false := by
  obtain ⟨u, v, hu, ⟨rfl, -, rfl⟩ | ⟨rfl, -, rfl⟩ | ⟨f, rfl, -, hr⟩ | ⟨f, -, -, hr, -⟩⟩ := settle_cases h
  · exact after_settle hx hu
  · exact after_settle hx hu
  · exact opened_undo (by rw [State.opened]; exact fun h0 => nomatch (after_settle hx hu).symm.trans h0) hr
  · exact absurd hr nofun

/-- An attempt that answers a phase has settled its checkpoint. -/
lemma opened_work_ok {q : Phase} (hx : x.opened = some false)
    (h : runOn x (work fr.watched a) = (.ok q, y)) : y.opened = some false := by
  obtain ⟨-, hp⟩ | ⟨hd, ht⟩ := work_cases h
  · obtain ⟨_, w, -, rfl, -⟩ := plan_cases hp
    exact hx
  · obtain ⟨g, -, hg⟩ | ⟨p, hc, hp, -⟩ | ⟨p, z, p', m, u, hc, hp, he, hm⟩ := trial_cases ht
    · exact absurd hg nofun
    · rw [opened_checkpoint hx rfl hc]
      simp [begins, hp]
    · have hu : u.opened = some true := opened_measures hx ⟨hd, p, z, hc, hp, he⟩
      obtain ⟨ds, -, hs⟩ | ⟨g, -, -, hs⟩ | ⟨g, -, -, hr, -⟩ := hm
      · exact opened_settle_ok hu hs
      · exact opened_undo (by simp [hu]) hs
      · exact absurd hr nofun

/-- A fault that leaves an attempt ends it, and leaves the checkpoint open when it was met while the edits
were made or committed. -/
lemma Meets.stops {d : Duty} (hx : x.opened = some false) (h : Meets fr.watched a x d f)
    (hl : d.leaves f.kind) :
    ∃ y, runOn x (work fr.watched a) = (.error f, y) ∧ y.opened = some (d == .edit || d == .commit) := by
  cases h with
  | plan hd h =>
    obtain ⟨_, w, -, rfl, -⟩ := plan_cases h
    exact ⟨_, (runOn_work_plan hd).trans h, hx⟩
  | checkpoint hd h => exact ⟨_, runOn_work_refused hd h, opened_checkpoint hx rfl h⟩
  | edit hm =>
    refine ⟨_, (runOn_work_measured hm).trans (if_neg ?_), opened_measures hx hm⟩
    exact fun h => Bool.false_ne_true (hl.symm.trans h)
  | failed hm hg h =>
    have hz := opened_measures hx hm
    refine ⟨_, (runOn_work_measured hm).trans ((if_pos hg).trans (runOn_undo_error h)), ?_⟩
    exact after_rollback h (fun h0 => nomatch hz.symm.trans h0)
  | commit hm hr h =>
    have hs := runOn_guard_commit hr h
    refine ⟨_, (runOn_work_measured hm).trans ((runOn_settle_error hs).trans (if_neg hl)), ?_⟩
    have hr' : fr.guard.isRegression _ _ = false := hr
    refine (after_settle (opened_measures hx hm) hs).trans ?_
    rw [hr']
    rfl
  | regression hm hr h hf =>
    have hs := runOn_guard_regression (a := a) hr h
    refine ⟨_, (runOn_work_measured hm).trans ((runOn_settle_error hs).trans (if_neg hf)), ?_⟩
    have hr' : fr.guard.isRegression _ _ = true := hr
    refine (after_settle (opened_measures hx hm) hs).trans ?_
    rw [hr']
    rfl
  | unsettled hm hs hg h =>
    refine ⟨_, (runOn_work_measured hm).trans
      ((runOn_settle_error hs).trans ((if_pos hg).trans (runOn_undo_error h))), ?_⟩
    exact after_rollback h (fun h0 => nomatch (after_settle (opened_measures hx hm) hs).symm.trans h0)

/-! ### Calls of a run -/

lemma opened_paused (x : State (σ × List Call)) (s : Settings) : (x.paused s).opened = x.opened := by
  unfold State.paused
  split <;> rfl

/-- Between two attempts no checkpoint is open. -/
lemma kept_opened : Kept fr.watched fun x => x.opened = some false where
  round {x y a o} hx _ hr := by
    obtain ⟨u, z, hu, ⟨f, -, hf, -⟩ | ⟨p, rfl, rfl, -⟩⟩ := round_cases hr
    · exact absurd hf nofun
    · obtain ⟨q, d, hq, hp⟩ := attempt_cases hu
      rcases q with f | q
      · exact absurd hp nofun
      · have hz : z.opened = some false := opened_work_ok ((opened_paused x _).trans hx) hq
        exact hz
  turn _ h := h
  skip _ h := h

end Watched

variable {s : Settings} {crew : Crew σ} {w : World} {u v : Outer (σ × List Call)}

/-- The calls of the snapshot provider that a run has made. -/
def Outer.calls (x : Outer (σ × List Call)) : List Call := (x.1.2.map (·.2)).getD []

lemma calls_analyze {r : Except Fault (Option (Act (List Diagnostic)))}
    (h : runOn u (analyze s crew.watched) = (r, v)) : v.1.2 = u.1.2 := by
  obtain ⟨_, _, -, ⟨f, -, -, rfl⟩ | ⟨_, _, _, -, -, ⟨f, -, -, rfl⟩ | ⟨ds, -, rfl, -⟩⟩⟩ := analyze_cases h
  · rfl
  · rfl
  · rfl

lemma calls_prepare {r : Except Fault (Option (Frame (σ × List Call) × (σ × List Call)))}
    (h : runOn u (prepare s crew.watched) = (r, v)) : v.1.2 = u.1.2 := by
  obtain ⟨_, z, ha, hc⟩ := prepare_cases h
  have hz := calls_analyze ha
  obtain ⟨_, -, -, rfl⟩ | ⟨-, -, rfl⟩ | ⟨_, _, _, -, -, -, rfl⟩ := hc
  · exact hz
  · exact hz
  · exact hz

/-- What a watched run is set up with is watched, and nothing is noted yet. -/
lemma prepare_watched {fr : Frame (σ × List Call)} {held : σ × List Call}
    (h : runOn u (prepare s crew.watched) = (.ok (some (fr, held)), v)) :
    ∃ fr' held', runOn u.forget (prepare s crew) = (.ok (some (fr', held')), v.forget) ∧
      fr = Frame.watched fr' ∧ held = (held', []) := by
  obtain ⟨hr, hv⟩ := runOn_prepare_watched s crew u
  rw [h] at hr hv
  rcases hp : runOn u.forget (prepare s crew) with ⟨f | _ | ⟨fr', held'⟩, z⟩
  · rw [hp] at hr
    exact absurd hr nofun
  · rw [hp] at hr
    exact absurd (Except.ok.inj hr) nofun
  · rw [hp] at hr hv
    obtain ⟨rfl, rfl⟩ := Prod.mk.inj (Option.some.inj (Except.ok.inj hr))
    obtain rfl : v.forget = z := hv
    exact ⟨fr', held', rfl, rfl, rfl⟩

lemma calls_ended (x : State (σ × List Call)) (r : Except Fault Unit) : (x.ended r).calls = x.1.2.2 := by
  cases r <;> rfl

/-- A fault that leaves an attempt leaves the run, and says whether the checkpoint of the attempt is
still open. -/
lemma Meets.leavesBody {fr : Frame (σ × List Call)} {a : Attempt} {x : State (σ × List Call)} {d : Duty}
    {f : Fault} (ha : Attempted s crew.watched w fr a x) (h : Meets fr a (x.paused fr.settings) d f)
    (hl : d.leaves f.kind) :
    ∃ y, runOn (started (opening w)) (body s crew.watched) = (.error f, y) ∧
      Call.after y.calls = some (d == .edit || d == .commit) := by
  obtain ⟨held, z, hp, hm⟩ := ha
  obtain ⟨fr, held, -, rfl, rfl⟩ := prepare_watched hp
  rcases hb : runOn (started (opening w)) (body s crew.watched) with ⟨r, y⟩
  obtain ⟨u, v, hu, hc⟩ := body_cases hb
  obtain ⟨rfl, rfl⟩ := Prod.mk.inj (hp.symm.trans hu)
  obtain ⟨_, hf, -⟩ | ⟨hf, -⟩ | ⟨_, _, hf, hg⟩ := hc
  · exact absurd hf nofun
  · exact absurd (Except.ok.inj hf) nofun
  · obtain ⟨rfl, rfl⟩ := Prod.mk.inj (Option.some.inj (Except.ok.inj hf))
    obtain ⟨t, hcourse, rfl⟩ := course_goThrough kept_opened (by rfl) hg
    obtain ⟨e, he, ho⟩ := h.stops ((opened_paused x _).trans (hcourse.start _ hm).1) hl
    have hround := round_error_iff.2 he
    obtain ⟨_, _, hok⟩ | ⟨g, hg, hr⟩ := hcourse.ends _ hm
    · exact absurd (hround.symm.trans hok) (by simp)
    · obtain ⟨hfg, rfl⟩ := Prod.mk.inj (hround.symm.trans hg)
      obtain rfl := Except.error.inj hfg
      exact ⟨_, by rw [hr], by rw [calls_ended]; exact ho⟩

/-- A fault that an attempt bears and that leaves it ends the run with every checkpoint settled. -/
lemma Duty.closes {d : Duty} {k : FaultKind} (hb : d.bears k = true) (hl : d.leaves k) :
    endsRun k = true ∧ (d == .edit || d == .commit) = false := by
  cases d with
  | edit => exact absurd (hl.symm.trans hb) nofun
  | commit => exact absurd (eq_of_beq hb) hl
  | plan => exact ⟨hb, rfl⟩
  | checkpoint => exact ⟨hb, rfl⟩
  | rollback => exact ⟨hb, rfl⟩

/-- When every fault of an attempt is borne, the phases end with every checkpoint settled, and a fault of
theirs ends the run with a report. -/
lemma goThrough_settles {fr : Frame (σ × List Call)} {held : σ × List Call} {z : Outer (σ × List Call)}
    {r : Except Fault Unit} (hp : runOn (started (opening w)) (prepare s crew.watched) = (.ok (some (fr, held)), z))
    (hb : ∀ fr a x, Attempted s crew.watched w fr a x → ∀ d f, Meets fr a (x.paused fr.settings) d f →
      d.bears f.kind = true) (h : runOn z (goThrough s fr held) = (r, v)) :
    Call.after v.calls = some false ∧ ∀ f, r = .error f → endsRun f.kind = true := by
  obtain ⟨fr, held, -, rfl, rfl⟩ := prepare_watched hp
  obtain ⟨t, hcourse, rfl⟩ := course_goThrough kept_opened (by rfl) h
  rw [calls_ended]
  obtain ⟨rfl, ht⟩ | ⟨⟨a, x⟩, hm, f, hround, rfl⟩ := hcourse.result
  · exact ⟨ht, nofun⟩
  · have hwork := round_error_iff.1 hround
    obtain ⟨d, hd, hl⟩ := Meets.of_work hwork
    obtain ⟨he, hd'⟩ := Duty.closes (hb _ a x ⟨_, z, hp, hm⟩ d f hd) hl
    obtain ⟨t', ht', ho⟩ := hd.stops ((opened_paused x _).trans (hcourse.start _ hm).1) hl
    obtain ⟨-, rfl⟩ := Prod.mk.inj (ht'.symm.trans hwork)
    refine ⟨ho.trans (congrArg some hd'), fun g hg => ?_⟩
    rwa [← Except.error.inj hg]

/-! ### Containment -/

/-- The calls that the snapshot provider of a run receives; watching them changes nothing. -/
def calls (s : Settings) (crew : Crew σ) (w : World) : List Call :=
  (runOn (opening w) (run s crew.watched)).2.calls

/-- A run is contained: it answers a report, the report tells when the run could not be set up, and every
checkpoint that was taken is settled before the next one and before the end. -/
structure Contained (s : Settings) (crew : Crew σ) (w : World) : Prop where
  answers : ∃ r, (runOn (opening w) (run s crew)).1 = .ok r
  tells : ∀ f r, (runOn (started (opening w)) (prepare s crew)).1 = .error f →
    (runOn (opening w) (run s crew)).1 = .ok r → r.status = "error"
  settled : Settled (calls s crew w)

/-- A run bears what it meets: setting up fails in one of the ways that end a run, every fault of an
attempt is of a kind that is borne where it is met, and the report can be handed out. -/
structure Bears (s : Settings) (crew : Crew σ) (w : World) : Prop where
  setup : ∀ f, (runOn (started (opening w)) (prepare s crew)).1 = .error f → endsRun f.kind = true
  attempts : ∀ fr a x, Attempted s crew.watched w fr a x → ∀ d f, Meets fr a (x.paused fr.settings) d f →
    d.bears f.kind = true
  handsOut : ∀ r z, runOn (started (opening w)) (body s crew.watched) = (r, z) →
    (∀ f, r = .error f → endsRun f.kind = true) →
    ∃ w', runOn z.2 (deliver s (z.closed r).1.1.grouping (report s (z.closed r).1.1 z.2)) = (.ok (), w')

lemma calls_run {r : Except Fault Report} (h : runOn u (run s crew.watched) = (r, v)) :
    ∃ q z, runOn (started u) (body s crew.watched) = (q, z) ∧ v.calls = z.calls := by
  obtain ⟨q, z, hb, ⟨f, -, -, -, rfl⟩ | ⟨-, hc⟩⟩ := run_cases h
  · exact ⟨q, v, hb, rfl⟩
  · obtain ⟨_, w, -, -, rfl⟩ := conclude_cases hc
    exact ⟨q, z, hb, by cases q <;> rfl⟩

lemma run_ok_watched (r : Report) :
    (runOn (opening w) (run s crew)).1 = .ok r ↔ (runOn (opening w) (run s crew.watched)).1 = .ok r :=
  iff_of_eq (congrArg (·.1 = .ok r) (run_watched s crew (opening w)))

lemma prepare_error_watched (f : Fault) :
    (runOn (started (opening w)) (prepare s crew.watched)).1 = .error f ↔
      (runOn (started (opening w)) (prepare s crew)).1 = .error f := by
  rw [(runOn_prepare_watched s crew (started (opening w))).1]
  change (runOn (started (opening w)) (prepare s crew)).1.map (Option.map noted) = .error f ↔ _
  rcases (runOn (started (opening w)) (prepare s crew)).1 with g | o
  · exact ⟨fun h => congrArg _ (Except.error.inj h), fun h => congrArg _ (Except.error.inj h)⟩
  · exact iff_of_false nofun nofun

/-- A run that could not be set up says so in its report. -/
lemma status_of_prepare {f : Fault} {r : Report} (hp : (runOn (started (opening w)) (prepare s crew)).1 = .error f)
    (hr : (runOn (opening w) (run s crew)).1 = .ok r) : r.status = "error" := by
  rcases h : runOn (opening w) (run s crew) with ⟨q, y⟩
  obtain rfl : q = .ok r := by rw [← hr, h]
  obtain ⟨u, z, hb, ⟨g, -, -, hg, -⟩ | ⟨-, hc⟩⟩ := run_cases h
  · exact absurd hg nofun
  · obtain ⟨p, y', hp', hpc⟩ := body_cases hb
    rw [hp'] at hp
    obtain ⟨g, -, rfl, rfl⟩ | ⟨hn, -⟩ | ⟨_, _, hn, -⟩ := hpc
    · obtain ⟨v, w', -, hv, -⟩ := conclude_cases hc
      rcases v with e | v
      · exact absurd hv nofun
      · rw [Except.ok.inj hv]
        rfl
    · exact absurd (hp.symm.trans hn) nofun
    · exact absurd (hp.symm.trans hn) nofun

lemma Contained.bears (h : Contained s crew w) : Bears s crew w := by
  obtain ⟨⟨r, hr⟩, -, hs⟩ := h
  rw [settled_iff] at hs
  rw [run_ok_watched] at hr
  rcases hrun : runOn (opening w) (run s crew.watched) with ⟨q, y⟩
  obtain rfl : q = .ok r := by rw [← hr, hrun]
  obtain ⟨u, z, hbody, hu⟩ := run_cases hrun
  have hends : ∀ f, u = .error f → endsRun f.kind = true := by
    obtain ⟨_, -, -, hf, -⟩ | ⟨he, -⟩ := hu
    · exact absurd hf nofun
    · exact he
  refine ⟨fun f hf => ?_, fun fr a x ha d f hm => ?_, fun u' z' hb' _ => ?_⟩
  · obtain ⟨p, v, hp, hc⟩ := body_cases hbody
    have hf' := (prepare_error_watched f).2 hf
    rw [hp] at hf'
    obtain ⟨g, hg, hu', -⟩ | ⟨hn, -⟩ | ⟨_, _, hn, -⟩ := hc
    · rw [← Except.error.inj (hg.symm.trans hf')]
      exact hends g hu'
    · exact absurd (hf'.symm.trans hn) nofun
    · exact absurd (hf'.symm.trans hn) nofun
  · by_contra hd
    -- A fault that is not borne leaves the run, or leaves a checkpoint open.
    have hl : d.leaves f.kind := by
      cases d with
      | edit => exact Bool.eq_false_iff.2 hd
      | commit => exact fun hk => hd (beq_iff_eq.2 hk)
      | plan => trivial
      | checkpoint => trivial
      | rollback => trivial
    obtain ⟨y', hy', ho⟩ := hm.leavesBody ha hl
    obtain ⟨rfl, rfl⟩ := Prod.mk.inj (hbody.symm.trans hy')
    obtain ⟨u', z', hb', hcalls⟩ := calls_run hrun
    obtain ⟨-, rfl⟩ := Prod.mk.inj (hbody.symm.trans hb')
    rw [calls, hrun, hcalls, ho] at hs
    have he := hends f rfl
    cases d with
    | edit => exact absurd hs nofun
    | commit => exact absurd hs nofun
    | plan => exact hd he
    | checkpoint => exact hd he
    | rollback => exact hd he
  · obtain ⟨rfl, rfl⟩ := Prod.mk.inj (hbody.symm.trans hb')
    obtain ⟨_, -, -, hf, -⟩ | ⟨-, hc⟩ := hu
    · exact absurd hf nofun
    · obtain ⟨v, w', hv, hr', -⟩ := conclude_cases hc
      have hz : (z.closed u).2 = z.2 := by cases u <;> rfl
      rcases v with f | v
      · exact absurd hr' nofun
      · exact ⟨w', by rw [← hz]; exact hv⟩

lemma Bears.contained (h : Bears s crew w) : Contained s crew w := by
  rcases hbody : runOn (started (opening w)) (body s crew.watched) with ⟨u, z⟩
  have hbear : Call.after z.calls = some false ∧ ∀ f, u = .error f → endsRun f.kind = true := by
    obtain ⟨p, v, hp, hc⟩ := body_cases hbody
    have hv : v.calls = [] := congrArg (fun o => (o.map (·.2)).getD []) (calls_prepare hp)
    obtain ⟨f, rfl, rfl, rfl⟩ | ⟨-, rfl, rfl⟩ | ⟨fr, held, rfl, hg⟩ := hc
    · refine ⟨by rw [hv]; rfl, fun g hg => ?_⟩
      obtain rfl := Except.error.inj hg
      exact h.setup f ((prepare_error_watched f).1 (by rw [hp]))
    · exact ⟨by rw [show (v.note (·.enter .done)).calls = v.calls from rfl, hv]; rfl, nofun⟩
    · exact goThrough_settles hp h.attempts hg
  obtain ⟨w', hw'⟩ := h.handsOut u z hbody hbear.2
  rcases hrun : runOn (opening w) (run s crew.watched) with ⟨q, y⟩
  obtain ⟨u', z', hb', hcalls⟩ := calls_run hrun
  obtain ⟨rfl, rfl⟩ := Prod.mk.inj (hbody.symm.trans hb')
  refine ⟨?_, fun f r hp hr => status_of_prepare hp hr, ?_⟩
  · obtain ⟨u', z', hb', hc⟩ := run_cases hrun
    obtain ⟨rfl, rfl⟩ := Prod.mk.inj (hbody.symm.trans hb')
    obtain ⟨f, hf, hk, -⟩ | ⟨-, hc⟩ := hc
    · exact absurd ((hbear.2 f hf).symm.trans hk) nofun
    · obtain ⟨v, w'', hv, hr, -⟩ := conclude_cases hc
      have hz : (z.closed u).2 = z.2 := by cases u <;> rfl
      rw [hz] at hv
      obtain ⟨rfl, -⟩ := Prod.mk.inj (hv.symm.trans hw')
      exact ⟨_, (run_ok_watched _).2 (by rw [hrun]; exact hr)⟩
  · rw [settled_iff, calls, hrun, hcalls]
    exact hbear.1

/-- A crew whose toolchain finds one diagnostic, and whose strategy makes a file and then fails in the
way of a snapshot provider. -/
def raising : Crew FileSnapshots where
  toolchain := pure (pure { code := 2, output := "src/a.ts(1,1): error TS2304: Cannot find name" })
  registry := pure ⟨[("import-issues", ⟨.custom, fun _ => do
    Act.ensureDirectories "/p/src"
    Act.writeText "/p/src/a.ts" "y"
    throw (.plain .snapshot "no copy")⟩)]⟩
  provider := pure (.ofWorkspace "/" "/p" [])
  snapshots := FileSnapshots.operations
  backups := none

end Ratchet.Run
