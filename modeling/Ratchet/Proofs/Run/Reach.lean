import Ratchet.Proofs.Leading
import Ratchet.Proofs.Run.Ledger

/-!
How far an attempt reaches.

An attempt moves the world by the acts of the crew only, so it leads where they lead. Of the progress it
leaves alone what the loops around it keep: the number of attempts, the skipped categories and the
schedule. Its phase tells the category and the number that it was made for.
-/

namespace Ratchet.Run

open Act

variable {σ : Type} {R : World → World → Prop} {fr : Frame σ} {a : Attempt} {phase : Phase} {x y z : State σ}

/-- The acts of the crew that an attempt is made of lead to related worlds. -/
structure Frame.Leads (R : World → World → Prop) (fr : Frame σ) : Prop where
  measure : Act.Leads R fr.measure
  apply : ∀ b, Act.Leads R (fr.registry.apply b)
  checkpoint : ∀ label files, Act.Leads (Beside R) (fr.guard.snapshots.checkpoint label files)
  commit : ∀ label, Act.Leads (Beside R) (fr.guard.snapshots.commit label)
  revert : Act.Leads (Beside R) fr.guard.snapshots.revert
  create : ∀ bs, fr.guard.backups = some bs → ∀ files text, Act.Leads R (bs.create files text)
  restore : ∀ bs, fr.guard.backups = some bs → ∀ name, Act.Leads R (bs.restore name)

/-- Where every world is related to every other, all acts lead to related worlds. -/
lemma Frame.leads_anywhere (fr : Frame σ) : fr.Leads fun _ _ => True :=
  ⟨fun _ => trivial, fun _ _ => trivial, fun _ _ _ => trivial, fun _ _ => trivial, fun _ => trivial,
    fun _ _ _ _ _ => trivial, fun _ _ _ _ => trivial⟩

/-- The world has come to a related one, and what the loops keep is as it was. -/
structure Reaches (R : World → World → Prop) (x y : State σ) : Prop where
  world : R x.2 y.2
  attempts : y.1.1.attempts = x.1.1.attempts
  skipped : y.1.1.skipped = x.1.1.skipped
  schedule : y.1.1.schedule = x.1.1.schedule

/-- Two phases are of the same attempt. -/
structure SameAttempt (p q : Phase) : Prop where
  category : q.category = p.category
  iteration : q.iteration = p.iteration

lemma SameAttempt.trans {p q q' : Phase} (h : SameAttempt p q) (k : SameAttempt q q') : SameAttempt p q' :=
  ⟨k.1.trans h.1, k.2.trans h.2⟩

/-- An answer, if there is one, is a phase of the same attempt. -/
def Tells (phase : Phase) (r : Except Fault Phase) : Prop := ∀ p, r = .ok p → SameAttempt phase p

lemma Tells.error (f : Fault) : Tells phase (.error f) := fun _ hp => absurd hp nofun

lemma Tells.ok {p : Phase} (h : SameAttempt phase p) : Tells phase (.ok p) := fun _ hq => Except.ok.inj hq ▸ h

lemma Tells.notBegun (phase : Phase) (f : Fault) : Tells phase (notBegun phase f) := by
  intro q hq
  obtain ⟨-, rfl⟩ := notBegun_ok hq
  exact ⟨rfl, rfl⟩

lemma Tells.of {p : Phase} {r : Except Fault Phase} (h : Tells p r) (hp : SameAttempt phase p) : Tells phase r :=
  fun q hq => hp.trans (h q hq)

lemma Reaches.trans [IsTrans World R] (h : Reaches R x y) (k : Reaches R y z) : Reaches R x z :=
  ⟨IsTrans.trans _ _ _ h.1 k.1, k.2.trans h.2, k.3.trans h.3, k.4.trans h.4⟩

lemma leads_rollback [IsTrans World R] (h : fr.Leads R) {b : Option String} {q q' : σ × World} {r : Except Fault Unit}
    (hr : runOn q (fr.guard.rollback b) = (r, q')) : R q.2 q'.2 := by
  obtain ⟨u, v, hv, hc⟩ := rollback_cases hr
  have hqv : R q.2 v.2 := by
    have hqv : Beside R q (runOn q fr.guard.snapshots.revert).2 := h.revert q
    rwa [hv] at hqv
  obtain ⟨-, -, rfl⟩ | ⟨_, -, -, -, rfl⟩ | ⟨_, -, -, hf⟩ := hc
  · exact hqv
  · exact hqv
  · obtain ⟨-, rfl⟩ | ⟨bs, name, _, w, hbs, -, hw, rfl, -⟩ := fallBack_cases hf
    · exact hqv
    · have hvw := h.restore bs hbs name v.2
      rw [hw] at hvw
      exact IsTrans.trans _ _ _ hqv hvw

lemma reaches_backUp [Std.Refl R] (h : fr.Leads R) {r : Except Fault (Option String)} (hr : runOn x (backUp fr a) = (r, y)) :
    Reaches R x y := by
  obtain ⟨-, -, rfl⟩ | ⟨bs, _, w, hbs, hw, hc⟩ := backUp_cases hr
  · exact ⟨refl _, rfl, rfl, rfl⟩
  · have hxw := h.create bs hbs (presentFiles x.2 fr.settings a.diagnostics) a.label x.2
    rw [hw] at hxw
    obtain ⟨b, -, -, rfl⟩ | ⟨_, -, -, rfl⟩ := hc
    · exact ⟨hxw, rfl, rfl, rfl⟩
    · exact ⟨hxw, rfl, rfl, rfl⟩

lemma reaches_checkpoint [Std.Refl R] [IsTrans World R] (h : fr.Leads R) {r : Except Fault Phase}
    (hr : runOn x (checkpoint fr a phase) = (r, y)) : Reaches R x y ∧ Tells phase r := by
  have henter : Reaches R x (x.enter .checkpointing) := ⟨refl _, rfl, rfl, rfl⟩
  obtain ⟨f, hb, rfl⟩ | ⟨b, z, u, v, hb, hu, rfl, hc⟩ := checkpoint_cases hr
  · exact ⟨henter.trans (reaches_backUp h hb), .notBegun _ f⟩
  · have hzv := h.checkpoint a.label (a.diagnostics.map (·.file)) z.held
    rw [show runOn z.held (fr.guard.snapshots.checkpoint a.label (a.diagnostics.map (·.file))) = (u, v) from hu]
      at hzv
    refine ⟨(henter.trans (reaches_backUp h hb)).trans ⟨hzv, rfl, rfl, rfl⟩, ?_⟩
    obtain ⟨-, rfl⟩ | ⟨f, -, rfl⟩ := hc
    · exact .ok ⟨rfl, rfl⟩
    · exact (Tells.notBegun _ f).of ⟨rfl, rfl⟩

lemma Edited.sameAttempt {u : Except Fault Edits} {p : Phase} (h : Edited phase u p) : SameAttempt phase p := by
  cases h <;> exact ⟨rfl, rfl⟩

lemma reaches_edit [IsTrans World R] (h : fr.Leads R) {p : Phase} {m : Except Fault (List Diagnostic)}
    (hr : runOn x (edit fr a phase) = (.ok (p, m), y)) : Reaches R x y ∧ SameAttempt phase p := by
  obtain ⟨u, w, hw, hc⟩ := edit_cases hr
  have hxw := h.apply (a.assignment fr.settings) x.2
  rw [hw] at hxw
  obtain ⟨f, -, -, hp, rfl⟩ | ⟨q, m', v, he, hv, hp, rfl⟩ := hc
  · obtain ⟨rfl, -⟩ := Prod.mk.inj (Except.ok.inj hp)
    exact ⟨⟨hxw, rfl, rfl, rfl⟩, rfl, rfl⟩
  · obtain ⟨rfl, -⟩ := Prod.mk.inj (Except.ok.inj hp)
    have hwv := h.measure w
    rw [hv] at hwv
    exact ⟨⟨IsTrans.trans _ _ _ hxw hwv, rfl, rfl, rfl⟩, he.sameAttempt⟩

lemma reaches_undo [IsTrans World R] (h : fr.Leads R) {r : Except Fault Phase} (hr : runOn x (undo fr phase) = (r, y)) :
    Reaches R x y ∧ Tells phase r := by
  obtain ⟨u, v, hv, rfl, rfl⟩ := undo_cases hr
  refine ⟨⟨leads_rollback h hv, rfl, rfl, rfl⟩, ?_⟩
  cases u with
  | error f => exact .error f
  | ok _ => exact .ok ⟨rfl, rfl⟩

lemma leads_settle [IsTrans World R] (h : fr.Leads R) {label : String} {before after : Int} {b : Option String} {q q' : σ × World}
    {r : Except Fault Bool} (hr : runOn q (fr.guard.settle label before after b) = (r, q')) : R q.2 q'.2 := by
  obtain ⟨-, u, hu, -⟩ | ⟨-, u, hu, -⟩ := guard_settle_cases hr
  · exact leads_rollback h hu
  · have hq := h.commit label q
    rwa [hu] at hq

lemma reaches_settle [IsTrans World R] (h : fr.Leads R) {ds : List Diagnostic} {r : Except Fault Phase}
    (hr : runOn x (settle fr a phase ds) = (r, y)) : Reaches R x y ∧ Tells phase r := by
  obtain ⟨u, v, hu, hc⟩ := settle_cases hr
  have hv : R x.2 v.2 := leads_settle h hu
  obtain ⟨-, rfl, rfl⟩ | ⟨-, rfl, rfl⟩ | ⟨f, -, -, hundo⟩ | ⟨f, -, -, rfl, rfl⟩ := hc
  · exact ⟨⟨hv, rfl, rfl, rfl⟩, .ok ⟨rfl, rfl⟩⟩
  · exact ⟨⟨hv, rfl, rfl, rfl⟩, .ok ⟨rfl, rfl⟩⟩
  · obtain ⟨hy, ht⟩ := reaches_undo h hundo
    have hz : Reaches R x ((x.enter (settling fr phase ds)).hold v) := ⟨hv, rfl, rfl, rfl⟩
    exact ⟨hz.trans hy, ht.of ⟨rfl, rfl⟩⟩
  · exact ⟨⟨hv, rfl, rfl, rfl⟩, .error f⟩

lemma reaches_trial [Std.Refl R] [IsTrans World R] (h : fr.Leads R) {r : Except Fault Phase} (hr : runOn x (trial fr a phase) = (r, y)) :
    Reaches R x y ∧ Tells phase r := by
  obtain ⟨f, hc, rfl⟩ | ⟨p, hc, -, rfl⟩ | ⟨p, z, q, m, u, hc, -, he, hm⟩ := trial_cases hr
  · exact ⟨(reaches_checkpoint h hc).1, .error f⟩
  · exact reaches_checkpoint h hc
  · obtain ⟨hz, hp⟩ := reaches_checkpoint h hc
    obtain ⟨hu, hq⟩ := reaches_edit h he
    have hxq : SameAttempt phase q := (hp p rfl).trans hq
    obtain ⟨ds, -, hs⟩ | ⟨f, -, -, hs⟩ | ⟨f, -, -, rfl, rfl⟩ := hm
    · obtain ⟨hy, ht⟩ := reaches_settle h hs
      exact ⟨(hz.trans hu).trans hy, ht.of hxq⟩
    · obtain ⟨hy, ht⟩ := reaches_undo h hs
      exact ⟨(hz.trans hu).trans hy, ht.of ⟨hxq.category, hxq.iteration⟩⟩
    · exact ⟨hz.trans hu, .error f⟩

lemma reaches_plan (h : Act.Leads R (fr.registry.apply (a.assignment fr.settings))) {r : Except Fault Phase}
    (hr : runOn x (plan fr a phase) = (r, y)) : Reaches R x y ∧ Tells phase r := by
  obtain ⟨u, w, hw, rfl, hc⟩ := plan_cases hr
  have hxw := h x.2
  rw [hw] at hxw
  refine ⟨⟨hxw, rfl, rfl, rfl⟩, ?_⟩
  obtain ⟨e, -, rfl⟩ | ⟨f, -, -, rfl⟩ | ⟨f, -, -, rfl⟩ := hc
  · exact .ok ⟨rfl, rfl⟩
  · exact .ok ⟨rfl, rfl⟩
  · exact .error f

/-- An attempt leads where the crew's acts lead, and its phase is that of the attempt. -/
theorem reaches_attempt [Std.Refl R] [IsTrans World R] (h : fr.Leads R) {r : Except Fault Phase} (hr : runOn x (attempt fr a) = (r, y)) :
    Reaches R x y ∧ ∀ p, r = .ok p → p.category = a.category.name ∧ p.iteration = a.iteration := by
  obtain ⟨u, d, hw, rfl⟩ := attempt_cases hr
  have hu : Reaches R x y ∧ Tells (a.blank x.1.1.current) u := by
    obtain ⟨-, hp⟩ | ⟨-, ht⟩ := work_cases hw
    · exact reaches_plan (h.apply _) hp
    · exact reaches_trial h ht
  refine ⟨hu.1, fun p hp => ?_⟩
  cases u with
  | error f => exact absurd hp nofun
  | ok q =>
    obtain rfl := Except.ok.inj hp
    have hq : SameAttempt (a.blank x.1.1.current) q := hu.2 q rfl
    exact ⟨hq.category, hq.iteration⟩

end Ratchet.Run
