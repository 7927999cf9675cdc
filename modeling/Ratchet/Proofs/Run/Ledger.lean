import Ratchet.Proofs.Grouping
import Ratchet.Proofs.Run.Course
import Ratchet.Proofs.Run.Setup

/-!
The books of a run.

The log of phases is a ledger: each phase starts from the count that the phases before it left, only
phases whose edits were kept move the count, and none of these moves it up by more than is allowed. The
books are kept at every start of an attempt, because an attempt changes the count and the diagnostics
together or not at all.
-/

namespace Ratchet

/-- A log of phases leads from one count to another: each phase starts from the count before it, and
moves it when its edits were kept. -/
def Chained : Int → List Phase → Int → Prop
  | n, [], m => n = m
  | n, p :: ps, m => p.before = n ∧ Chained (if p.committed then p.after else p.before) ps m

namespace Chained

lemma append {n k m : Int} {ps qs : List Phase} (h : Chained n ps k) (h' : Chained k qs m) :
    Chained n (ps ++ qs) m := by
  induction ps generalizing n with
  | nil => simpa [Chained] using (show n = k from h) ▸ h'
  | cons p ps ih => exact ⟨h.1, ih h.2⟩

lemma snoc {n k : Int} {ps : List Phase} (h : Chained n ps k) {p : Phase} (hp : p.before = k) :
    Chained n (ps ++ [p]) (if p.committed then p.after else p.before) :=
  h.append ⟨hp, rfl⟩

end Chained

/-- The phases of a log whose edits were kept. -/
def keptPhases (ps : List Phase) : List Phase := ps.filter Phase.committed

/-- What phases that were kept say about themselves: how far they moved the count, within what is
allowed. -/
structure Phase.Fair (limit : Int) (p : Phase) : Prop where
  improvement : p.improvement = p.before - p.after
  bounded : p.after - p.before ≤ limit

/-- The changes of the count along a log add up. -/
lemma Chained.improvements {limit n m : Int} {ps : List Phase} (h : Chained n ps m)
    (hf : ∀ p ∈ ps, p.committed = true → p.Fair limit) :
    n - m = ((keptPhases ps).map Phase.improvement).sum ∧
      m ≤ n + (keptPhases ps).length * limit := by
  induction ps generalizing n with
  | nil =>
    have hnm : n = m := h
    simp [keptPhases, hnm]
  | cons p ps ih =>
    obtain ⟨hp, h⟩ := h
    obtain ⟨hsum, hle⟩ := ih h fun q hq => hf q (List.mem_cons_of_mem p hq)
    by_cases hc : p.committed = true
    · obtain ⟨hi, hb⟩ := hf p List.mem_cons_self hc
      simp only [hc, if_true] at hsum hle
      have hk : keptPhases (p :: ps) = p :: keptPhases ps := List.filter_cons_of_pos hc
      rw [hk, List.map_cons, List.sum_cons, List.length_cons, ← hsum]
      refine ⟨by omega, ?_⟩
      push_cast
      rw [add_mul, one_mul]
      omega
    · rw [if_neg hc] at hsum hle
      have hk : keptPhases (p :: ps) = keptPhases ps := List.filter_cons_of_neg hc
      rw [hk, ← hsum, ← hp]
      exact ⟨rfl, hle⟩

namespace Run

open Act

variable {σ : Type} {x y z : State σ} {fr : Frame σ} {a : Attempt} {phase : Phase}

/-! ### What an attempt enters in the books -/

/-- The books are as they were. -/
structure Steady (x y : State σ) : Prop where
  initial : y.1.1.initial = x.1.1.initial
  current : y.1.1.current = x.1.1.current
  diagnostics : y.1.1.diagnostics = x.1.1.diagnostics
  phases : y.1.1.phases = x.1.1.phases

namespace Steady

@[refl] lemma refl (x : State σ) : Steady x x := ⟨rfl, rfl, rfl, rfl⟩

lemma trans (h : Steady x y) (k : Steady y z) : Steady x z :=
  ⟨k.1.trans h.1, k.2.trans h.2, k.3.trans h.3, k.4.trans h.4⟩

lemma enter (s : Stage) : Steady x (x.enter s) := ⟨rfl, rfl, rfl, rfl⟩

lemma hold (q : σ × World) : Steady x (x.hold q) := ⟨rfl, rfl, rfl, rfl⟩

lemma beside (w : World) : Steady x (x.beside w) := ⟨rfl, rfl, rfl, rfl⟩

lemma backedUp (b : Backup) : Steady x (x.backedUp b) := ⟨rfl, rfl, rfl, rfl⟩

lemma enter_hold (s : Stage) (q : σ × World) : Steady x ((x.enter s).hold q) := ⟨rfl, rfl, rfl, rfl⟩

end Steady

/-- A phase that has not said how its attempt ended. -/
structure Open (n : Nat) (p : Phase) : Prop where
  before : p.before = n
  error : p.error = none
  reverted : p.reverted = false
  dryRun : p.dryRun = false

lemma blank_open (a : Attempt) (n : Nat) : Open n (a.blank n) := ⟨rfl, rfl, rfl, rfl⟩

/-- What an attempt enters in the books: either nothing, and its phase says that its edits were not kept,
or the count and the diagnostics of one measurement, and its phase says so. -/
inductive Entered (limit : Int) (x y : State σ) (p : Phase) : Prop
  | nothing (steady : Steady x y) (before : p.before = x.1.1.current) (dropped : p.committed = false)
  | measured (ds : List Diagnostic) (z : State σ) (steady : Steady x z) (state : y = z.measured ds)
      (before : p.before = x.1.1.current) (after : p.after = ds.length) (fair : p.Fair limit)
      (kept : p.committed = true)

lemma backUp_steady {r : Except Fault (Option String)} (h : runOn x (backUp fr a) = (r, y)) :
    Steady x y := by
  obtain ⟨-, -, rfl⟩ | ⟨_, _, w, -, -, ⟨b, -, -, rfl⟩ | ⟨_, -, -, rfl⟩⟩ := backUp_cases h
  · exact .refl _
  · exact (Steady.beside w).trans (.backedUp b)
  · exact .beside w

lemma checkpoint_steady {r : Except Fault Phase} (h : runOn x (checkpoint fr a phase) = (r, y)) :
    Steady x y := by
  obtain ⟨f, hb, -⟩ | ⟨b, z, u, v, hb, -, rfl, -⟩ := checkpoint_cases h
  · exact (Steady.enter _).trans (backUp_steady hb)
  · exact ((Steady.enter _).trans (backUp_steady hb)).trans (.hold v)

/-- A fault that keeps an attempt from beginning is told by its phase. -/
lemma notBegun_ok {p q : Phase} {f : Fault} (h : notBegun p f = .ok q) :
    failsCheckpoint f.kind = true ∧ q = { p with error := some ("checkpoint failed: " ++ f.text) } := by
  unfold notBegun at h
  split at h
  · exact ⟨‹_›, (Except.ok.inj h).symm⟩
  · exact absurd h nofun

/-- The phase that a checkpoint answers says that the attempt failed, or nothing about its end. -/
lemma checkpoint_phase {n : Nat} {p : Phase} (ho : Open n phase)
    (h : runOn x (checkpoint fr a phase) = (.ok p, y)) :
    p.before = n ∧ (p.failed = false → Open n p) := by
  obtain ⟨f, -, hr⟩ | ⟨b, z, u, v, -, -, -, ⟨-, hr⟩ | ⟨f, -, hr⟩⟩ := checkpoint_cases h
  · obtain ⟨-, rfl⟩ := notBegun_ok hr.symm
    exact ⟨ho.before, fun hf => absurd hf (by simp [Phase.failed])⟩
  · obtain rfl := Except.ok.inj hr
    exact ⟨ho.before, fun _ => ⟨ho.before, ho.error, ho.reverted, ho.dryRun⟩⟩
  · obtain ⟨-, rfl⟩ := notBegun_ok hr.symm
    exact ⟨ho.before, fun hf => absurd hf (by simp [Phase.failed])⟩

lemma Edited.open {n : Nat} {u : Except Fault Edits} {p : Phase} (ho : Open n phase)
    (h : Edited phase u p) : Open n p := by
  cases h
  · exact ⟨ho.before, ho.error, ho.reverted, ho.dryRun⟩
  · exact ⟨ho.before, ho.error, ho.reverted, ho.dryRun⟩

lemma edit_steady {n : Nat} {p : Phase} {m : Except Fault (List Diagnostic)} (ho : Open n phase)
    (h : runOn x (edit fr a phase) = (.ok (p, m), y)) : Steady x y ∧ Open n p := by
  obtain ⟨u, w, -, ⟨f, -, -, hr, rfl⟩ | ⟨p', m', v, he, -, hr, rfl⟩⟩ := edit_cases h
  · obtain ⟨rfl, rfl⟩ := Prod.mk.inj (Except.ok.inj hr)
    exact ⟨⟨rfl, rfl, rfl, rfl⟩, ho⟩
  · obtain ⟨rfl, rfl⟩ := Prod.mk.inj (Except.ok.inj hr)
    exact ⟨⟨rfl, rfl, rfl, rfl⟩, he.open ho⟩

/-- Undoing touches no books. -/
lemma undo_steady {r : Except Fault Phase} (h : runOn x (undo fr phase) = (r, y)) : Steady x y := by
  obtain ⟨_, v, -, rfl, -⟩ := undo_cases h
  exact .enter_hold _ v

lemma undo_phase {p : Phase} (h : runOn x (undo fr phase) = (.ok p, y)) :
    p = { phase with rolledBack := true } := by
  obtain ⟨u, v, -, -, hr⟩ := undo_cases h
  rcases u with _ | u
  · exact absurd hr nofun
  · exact Except.ok.inj hr

/-- An attempt that is settled enters its measurement exactly when it is committed. -/
lemma settle_entered {ds : List Diagnostic} (ho : Open x.1.1.current phase) {p : Phase}
    (h : runOn x (settle fr a phase ds) = (.ok p, y)) : Entered fr.guard.maxIncrease x y p := by
  obtain ⟨u, v, hu, ⟨-, hr, rfl⟩ | ⟨rfl, hr, rfl⟩ | ⟨f, -, -, hr⟩ | ⟨f, -, -, hr, -⟩⟩ := settle_cases h
  · obtain rfl := Except.ok.inj hr
    exact .nothing (.enter_hold _ v) ho.before (by simp [Phase.committed])
  · obtain rfl := Except.ok.inj hr
    obtain ⟨-, w, -, hw⟩ | ⟨hg, -⟩ := guard_settle_cases hu
    · cases w <;> exact absurd hw nofun
    · have hb : ((ds.length : Int) - phase.before) ≤ fr.guard.maxIncrease := by
        simpa [Guard.isRegression] using hg
      exact .measured ds _ (.enter_hold _ v) rfl ho.before rfl ⟨rfl, hb⟩
        (by simp [Phase.committed, Phase.failed, withCount, ho.error, ho.reverted, ho.dryRun])
  · obtain rfl := undo_phase hr
    exact .nothing ((Steady.enter_hold _ v).trans (undo_steady hr)) ho.before
      (by simp [Phase.committed, Phase.failed])
  · exact absurd hr nofun

lemma settle_steady {ds : List Diagnostic} {f : Fault}
    (h : runOn x (settle fr a phase ds) = (.error f, y)) : Steady x y := by
  obtain ⟨u, v, -, ⟨-, hr, -⟩ | ⟨-, hr, -⟩ | ⟨g, -, -, hr⟩ | ⟨g, -, -, -, rfl⟩⟩ := settle_cases h
  · exact absurd hr nofun
  · exact absurd hr nofun
  · exact (Steady.enter_hold _ v).trans (undo_steady hr)
  · exact .enter_hold _ v

lemma trial_entered {p : Phase} (ho : Open x.1.1.current phase)
    (h : runOn x (trial fr a phase) = (.ok p, y)) : Entered fr.guard.maxIncrease x y p := by
  obtain ⟨f, -, hr⟩ | ⟨q, hc, hq, hr⟩ | ⟨q, z, q', m, u, hc, hq, he, hm⟩ := trial_cases h
  · exact absurd hr nofun
  · obtain rfl := Except.ok.inj hr
    exact .nothing (checkpoint_steady hc) (checkpoint_phase ho hc).1 (by simp [Phase.committed, hq])
  · have hz := checkpoint_steady hc
    obtain ⟨hu, ho'⟩ := edit_steady ((checkpoint_phase ho hc).2 hq) he
    have hxu : Steady x u := hz.trans hu
    obtain ⟨ds, -, hs⟩ | ⟨f, -, -, hs⟩ | ⟨f, -, -, hr, -⟩ := hm
    · rw [← hxu.current] at ho'
      rcases settle_entered ho' hs with ⟨hy, hb, hd⟩ | ⟨ds, v, hy, rfl, hb, ha, hf, hk⟩
      · exact .nothing (hxu.trans hy) (hb.trans (by rw [hxu.current])) hd
      · exact .measured ds v (hxu.trans hy) rfl (hb.trans (by rw [hxu.current])) ha hf hk
    · obtain rfl := undo_phase hs
      exact .nothing (hxu.trans (undo_steady hs)) ho'.before (by simp [Phase.committed, Phase.failed])
    · exact absurd hr nofun

lemma trial_steady {f : Fault} (ho : Open x.1.1.current phase)
    (h : runOn x (trial fr a phase) = (.error f, y)) : Steady x y := by
  obtain ⟨g, hc, -⟩ | ⟨q, -, -, hr⟩ | ⟨q, z, q', m, u, hc, hq, he, hm⟩ := trial_cases h
  · exact checkpoint_steady hc
  · exact absurd hr nofun
  · have hxu := (checkpoint_steady hc).trans (edit_steady ((checkpoint_phase ho hc).2 hq) he).1
    obtain ⟨ds, -, hs⟩ | ⟨g, -, -, hs⟩ | ⟨g, -, -, -, rfl⟩ := hm
    · exact hxu.trans (settle_steady hs)
    · exact hxu.trans (undo_steady hs)
    · exact hxu

/-- Planning enters nothing. -/
lemma plan_entered {r : Except Fault Phase} (h : runOn x (plan fr a phase) = (r, y)) :
    Steady x y ∧ ∀ p, r = .ok p → p.before = phase.before ∧ p.committed = false := by
  obtain ⟨u, w, -, rfl, ⟨e, -, rfl⟩ | ⟨f, -, -, rfl⟩ | ⟨f, -, -, rfl⟩⟩ := plan_cases h
  · refine ⟨⟨rfl, rfl, rfl, rfl⟩, fun p hp => ?_⟩
    obtain rfl := Except.ok.inj hp
    exact ⟨rfl, by simp [Phase.committed, withEdits, planned]⟩
  · refine ⟨⟨rfl, rfl, rfl, rfl⟩, fun p hp => ?_⟩
    obtain rfl := Except.ok.inj hp
    exact ⟨rfl, by simp [Phase.committed, planned]⟩
  · exact ⟨⟨rfl, rfl, rfl, rfl⟩, fun p hp => absurd hp nofun⟩

/-- **An attempt enters one measurement or nothing.** What its phase says about its edits and about the
count is what happened to the books. -/
theorem attempt_entered {p : Phase} (h : runOn x (attempt fr a) = (.ok p, y)) :
    Entered fr.guard.maxIncrease x y p := by
  obtain ⟨u, d, hw, hr⟩ := attempt_cases h
  rcases u with f | q
  · exact absurd hr nofun
  · obtain rfl := Except.ok.inj hr
    obtain ⟨-, hp⟩ | ⟨-, ht⟩ := work_cases hw
    · obtain ⟨hs, hq⟩ := plan_entered hp
      exact .nothing hs (hq q rfl).1 (hq q rfl).2
    · rcases trial_entered (blank_open a _) ht with ⟨hs, hb, hd⟩ | ⟨ds, z, hs, rfl, hb, ha, hf, hk⟩
      · exact .nothing hs hb hd
      · exact .measured ds z hs rfl hb ha ⟨hf.1, hf.2⟩ hk

/-- An attempt that faults enters nothing. -/
lemma attempt_steady {f : Fault} (h : runOn x (attempt fr a) = (.error f, y)) : Steady x y := by
  obtain ⟨u, d, hw, hr⟩ := attempt_cases h
  rcases u with g | q
  · obtain ⟨-, hp⟩ | ⟨-, ht⟩ := work_cases hw
    · exact (plan_entered hp).1
    · exact trial_steady (blank_open a _) ht
  · exact absurd hr nofun

/-! ### The books at the start of every attempt -/

/-- The books are kept: the log leads from the initial count to the current one, which is the number of
the current diagnostics. -/
structure Booked (limit : Int) (p : Progress) : Prop where
  chained : Chained p.initial p.phases p.current
  fair : ∀ q ∈ p.phases, q.committed = true → q.Fair limit
  counted : p.diagnostics.length = p.current

lemma Booked.steady {limit : Int} (h : Booked limit x.1.1) (hs : Steady x y) : Booked limit y.1.1 where
  chained := by rw [hs.initial, hs.phases, hs.current]; exact h.chained
  fair := by rw [hs.phases]; exact h.fair
  counted := by rw [hs.diagnostics, hs.current]; exact h.counted

lemma paused_steady (x : State σ) (s : Settings) : Steady x (x.paused s) := by
  unfold State.paused
  split <;> exact ⟨rfl, rfl, rfl, rfl⟩

/-- The phase of an attempt continues the log. -/
lemma Booked.logged {limit : Int} {p : Phase} (h : Booked limit x.1.1) (he : Entered limit x y p) :
    Booked limit (y.logged p).1.1 := by
  rcases he with ⟨hs, hb, hd⟩ | ⟨ds, z, hs, rfl, hb, ha, hf, hk⟩
  · refine ⟨?_, ?_, (h.steady hs).counted⟩
    · have hc := h.chained.snoc hb
      rw [if_neg (by simp [hd]), hb] at hc
      change Chained y.1.1.initial (y.1.1.phases ++ [p]) y.1.1.current
      rw [hs.initial, hs.phases, hs.current]
      exact hc
    · intro q hq hqc
      rcases List.mem_append.1 hq with hq | hq
      · exact h.fair q (hs.phases ▸ hq) hqc
      · rw [List.mem_singleton.1 hq] at hqc
        exact absurd hqc (by simp [hd])
  · refine ⟨?_, ?_, rfl⟩
    · have hc := h.chained.snoc hb
      rw [if_pos hk, ha] at hc
      change Chained z.1.1.initial (z.1.1.phases ++ [p]) ds.length
      rw [hs.initial, hs.phases]
      exact hc
    · intro q hq hqc
      rcases List.mem_append.1 hq with hq | hq
      · exact h.fair q (hs.phases ▸ hq) hqc
      · rw [List.mem_singleton.1 hq]
        exact hf

/-- A round keeps the books, and leaves them as they were when its attempt faults. -/
lemma Booked.round {r : Except Fault (Option (List Diagnostic))} (h : Booked fr.guard.maxIncrease x.1.1)
    (hr : runOn x (round fr a) = (r, y)) : Booked fr.guard.maxIncrease y.1.1 := by
  have hp := h.steady (paused_steady x fr.settings)
  obtain ⟨u, z, hu, ⟨f, rfl, -, rfl⟩ | ⟨p, rfl, rfl, -⟩⟩ := round_cases hr
  · exact hp.steady (attempt_steady hu)
  · exact hp.logged (attempt_entered hu)

lemma booked_kept : Kept fr fun x => Booked fr.guard.maxIncrease x.1.1 where
  round h _ hr := h.round hr
  turn _ h := h.steady ⟨rfl, rfl, rfl, rfl⟩
  skip _ h := h.steady ⟨rfl, rfl, rfl, rfl⟩

/-- All phases together keep the books, also when a fault ends them. -/
lemma Booked.remedyAll {ss : List Scheduled} {r : Except Fault Unit}
    (h : Booked fr.guard.maxIncrease x.1.1) (hr : runOn x (remedyAll fr ss) = (r, y)) :
    Booked fr.guard.maxIncrease y.1.1 := by
  have hc := course_remedyAll booked_kept ss h hr
  rcases hc.result with ⟨-, hy⟩ | ⟨m, hm, f, hf, -⟩
  · exact hy
  · exact (hc.start m hm).1.round hf

section Report

variable {s : Settings} {crew : Crew σ} {u v : Outer σ}

lemma booked_started (x : Outer σ) : Booked s.maxIncrease (started x).1.1 :=
  ⟨rfl, fun _ hq => absurd hq List.not_mem_nil, rfl⟩

/-- The first measurement opens the books. -/
lemma booked_analyze {r : Except Fault (Option (Act (List Diagnostic)))} (hu : u.1.1.phases = [])
    (hb : Booked s.maxIncrease u.1.1) (h : runOn u (analyze s crew) = (r, v)) :
    Booked s.maxIncrease v.1.1 := by
  obtain ⟨_, w, -, ⟨f, -, -, rfl⟩ | ⟨invoke, m, w', -, -, ⟨f, -, -, rfl⟩ | ⟨ds, -, rfl, -⟩⟩⟩ :=
    analyze_cases h
  · exact ⟨hb.chained, hb.fair, hb.counted⟩
  · exact ⟨hb.chained, hb.fair, hb.counted⟩
  · refine ⟨?_, ?_, rfl⟩
    · change Chained ds.length u.1.1.phases ds.length
      rw [hu]
      exact rfl
    · exact hb.fair

lemma booked_prepare {r : Except Fault (Option (Frame σ × σ))} (x : Outer σ)
    (h : runOn (started x) (prepare s crew) = (r, v)) : Booked s.maxIncrease v.1.1 := by
  obtain ⟨q, t, ht, hq⟩ := prepare_cases h
  have hb : Booked s.maxIncrease t.1.1 := booked_analyze rfl (booked_started x) ht
  obtain ⟨f, -, -, rfl⟩ | ⟨-, -, rfl⟩ | ⟨measure, o, w, -, -, -, rfl⟩ := hq
  · exact hb
  · exact hb
  · exact hb

lemma booked_goThrough {fr : Frame σ} {held : σ} {r : Except Fault Unit} (hg : fr.guard.maxIncrease = s.maxIncrease)
    (hu : Booked s.maxIncrease u.1.1) (h : runOn u (goThrough s fr held) = (r, v)) : Booked s.maxIncrease v.1.1 := by
  obtain ⟨t, ht, rfl⟩ := goThrough_cases h
  have hb : Booked fr.guard.maxIncrease t.1.1 := Booked.remedyAll (hg ▸ ⟨hu.chained, hu.fair, hu.counted⟩) ht
  rw [hg] at hb
  rcases r with f | _
  · exact ⟨hb.chained, hb.fair, hb.counted⟩
  · exact ⟨hb.chained, hb.fair, hb.counted⟩

lemma booked_body {r : Except Fault Unit} (x : Outer σ) (h : runOn (started x) (body s crew) = (r, v)) :
    Booked s.maxIncrease v.1.1 := by
  obtain ⟨p, z, hp, hr⟩ := body_cases h
  have hz := booked_prepare x hp
  obtain ⟨f, -, -, rfl⟩ | ⟨-, -, rfl⟩ | ⟨fr, held, rfl, hg⟩ := hr
  · exact hz
  · exact ⟨hz.chained, hz.fair, hz.counted⟩
  · obtain ⟨measure, y, w, -, hc, -⟩ := prepare_ok hp
    exact booked_goThrough (by rw [(complete_ok hc).2.2.1]) hz hg

end Report

end Run

/-! ### The books in the report -/

/-- The figures of a report agree with its log of phases. -/
structure Report.Balanced (limit : Int) (r : Report) : Prop where
  limited : r.maxIncrease = limit
  chained : Chained r.initial r.phases r.final
  bounded : ∀ p ∈ r.phases, p.committed = true → p.after - p.before ≤ limit
  clear : Report.violations r.phases limit = []
  improvement : r.improvement = r.initial - r.final
  gained : r.improvement = ((keptPhases r.phases).map Phase.improvement).sum
  rise : r.final ≤ r.initial + (keptPhases r.phases).length * limit
  remaining : (r.remaining.map (·.2)).sum = r.final

/-- A report of kept books is balanced. -/
lemma Run.Booked.report {s : Settings} {p : Progress} (h : Run.Booked s.maxIncrease p) (w : World) :
    (Run.report s p w).Balanced s.maxIncrease where
  limited := rfl
  chained := h.chained
  bounded q hq hc := (h.fair q hq hc).bounded
  clear := by
    refine List.filter_eq_nil_iff.2 fun q hq hv => ?_
    obtain ⟨hc, hv⟩ := Bool.and_eq_true_iff.1 hv
    exact absurd (h.fair q hq hc).bounded (not_le.2 (of_decide_eq_true hv))
  improvement := rfl
  gained := (h.chained.improvements h.fair).1
  rise := (h.chained.improvements h.fair).2
  remaining := by
    change (((Grouping.ofList p.diagnostics).counts.map fun c => (c.1.name, (c.2 : Int))).map (·.2)).sum =
      (p.current : Int)
    rw [List.map_map, ← h.counted, ← Grouping.counts_sum p.diagnostics]
    induction (Grouping.ofList p.diagnostics).counts with
    | nil => rfl
    | cons c cs ih => simpa using ih

/-- **The figures of a run add up.** Whatever the settings, the toolchain, the strategies, the snapshots
and the backups do, the log of any report that a run answers chains from the initial to the final count,
no phase that was kept exceeds the allowed increase, and the improvement and the rest agree with it. -/
theorem Run.run_balanced {σ : Type} (s : Settings) (crew : Crew σ) (x : Run.Outer σ) (r : Report)
    (h : (Act.runOn x (Run.run s crew)).1 = .ok r) : r.Balanced s.maxIncrease := by
  rcases hr : Act.runOn x (Run.run s crew) with ⟨q, y⟩
  obtain rfl : q = .ok r := by rw [← h, hr]
  obtain ⟨u, z, hb, ⟨f, -, -, hf, -⟩ | ⟨-, hc⟩⟩ := Run.run_cases hr
  · exact absurd hf nofun
  · have hz : Run.Booked s.maxIncrease (z.closed u).1.1 := by
      have hz := Run.booked_body x hb
      rcases u with f | _
      · exact ⟨hz.chained, hz.fair, hz.counted⟩
      · exact hz
    obtain ⟨v, w, -, hv, -⟩ := Run.conclude_cases hc
    rcases v with f | v
    · exact absurd hv nofun
    · obtain rfl := Except.ok.inj hv
      exact hz.report _

/-- A crew without strategies whose toolchain finds one diagnostic at first and none afterwards. -/
def Crew.fading : Crew Unit where
  toolchain := pure do
    let n ← Act.draw
    return if n == 1 then { code := 1, output := "a.ts(1,1): error TS2304: x" } else { code := 0, output := "" }
  registry := pure ⟨[]⟩
  provider := pure ()
  snapshots := ⟨fun _ _ => pure (), fun _ => pure (), pure ()⟩
  backups := none

/-- A run with one phase that is kept answers a balanced report. -/
theorem Run.run_balanced_fading :
    ∃ r, (Act.runOn (({}, none), {}) (Run.run { projectPath := "/p" } Crew.fading)).1 = .ok r ∧
      r.phases.length = 1 ∧ r.final = 0 ∧ r.Balanced 0 := by
  have hd : (Act.runOn (({}, none), {}) (Run.run { projectPath := "/p" } Crew.fading)).1.toOption.map
      (fun r => (r.phases.length, r.final)) = some (1, 0) := by decide +kernel
  obtain ⟨r, hr, hf⟩ := Option.map_eq_some_iff.1 hd
  have hok := Act.ok_of_toOption hr
  obtain ⟨hl, h0⟩ := Prod.mk.inj hf
  exact ⟨r, hok, hl, h0, Run.run_balanced _ _ _ r hok⟩

end Ratchet
