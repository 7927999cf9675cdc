import Ratchet.Proofs.Run.Course
import Ratchet.Proofs.Run.Watch

/-!
What a run does with the state of its snapshot provider.

A run changes that state by the three operations only. So a relation that holds across each operation
holds across every attempt and across all of them; the notes of a watched provider, which only grow, are
the case that is used.
-/

namespace Ratchet

open Act

variable {σ : Type}

/-- A relation that holds across every operation of a snapshot provider. -/
structure Snapshots.Moves (ops : Snapshots σ) (R : σ → σ → Prop) : Prop where
  refl : ∀ c, R c c
  trans : ∀ {c d e}, R c d → R d e → R c e
  checkpoint : ∀ {label files q r q'}, runOn q (ops.checkpoint label files) = (r, q') → R q.1 q'.1
  commit : ∀ {label q r q'}, runOn q (ops.commit label) = (r, q') → R q.1 q'.1
  revert : ∀ {q r q'}, runOn q ops.revert = (r, q') → R q.1 q'.1

namespace Run

variable {fr : Frame σ} {R : σ → σ → Prop} {a : Attempt} {p : Phase} {x y : State σ}

lemma moves_rollback {g : Guard σ} (h : g.snapshots.Moves R) {b : Option String} {q q' : σ × World}
    {r : Except Fault Unit} (hr : runOn q (g.rollback b) = (r, q')) : R q.1 q'.1 := by
  obtain ⟨u, v, hv, hc⟩ := rollback_cases hr
  have hqv := h.revert hv
  obtain ⟨-, -, rfl⟩ | ⟨_, -, -, -, rfl⟩ | ⟨_, -, -, hf⟩ := hc
  · exact hqv
  · exact hqv
  · obtain ⟨-, rfl⟩ | ⟨_, _, _, w, -, -, -, rfl, -⟩ := fallBack_cases hf
    · exact hqv
    · exact hqv

lemma moves_backUp {r : Except Fault (Option String)} (hr : runOn x (backUp fr a) = (r, y)) : y.1.2 = x.1.2 := by
  obtain ⟨-, -, rfl⟩ | ⟨_, _, w, -, -, ⟨b, -, -, rfl⟩ | ⟨_, -, -, rfl⟩⟩ := backUp_cases hr
  · rfl
  · rfl
  · rfl

lemma moves_checkpoint (h : fr.guard.snapshots.Moves R) {r : Except Fault Phase}
    (hr : runOn x (checkpoint fr a p) = (r, y)) : R x.1.2 y.1.2 := by
  obtain ⟨_, hb, -⟩ | ⟨b, z, u, v, hb, hu, rfl, -⟩ := checkpoint_cases hr
  · rw [moves_backUp hb]
    exact h.refl _
  · have hz := h.checkpoint hu
    rw [State.held, moves_backUp hb] at hz
    exact hz

lemma moves_edit {r : Except Fault (Phase × Except Fault (List Diagnostic))}
    (hr : runOn x (edit fr a p) = (r, y)) : y.1.2 = x.1.2 := by
  obtain ⟨_, w, -, ⟨_, -, -, -, rfl⟩ | ⟨_, _, v, -, -, -, rfl⟩⟩ := edit_cases hr
  · rfl
  · rfl

lemma moves_undo (h : fr.guard.snapshots.Moves R) {r : Except Fault Phase}
    (hr : runOn x (undo fr p) = (r, y)) : R x.1.2 y.1.2 := by
  obtain ⟨_, v, hv, rfl, -⟩ := undo_cases hr
  exact moves_rollback h hv

lemma moves_settle (h : fr.guard.snapshots.Moves R) {ds : List Diagnostic} {r : Except Fault Phase}
    (hr : runOn x (settle fr a p ds) = (r, y)) : R x.1.2 y.1.2 := by
  obtain ⟨u, v, hu, hc⟩ := settle_cases hr
  have hv : R x.1.2 v.1 := by
    obtain ⟨-, o, ho, -⟩ | ⟨-, o, ho, -⟩ := guard_settle_cases hu
    · exact moves_rollback h ho
    · exact h.commit ho
  obtain ⟨-, -, rfl⟩ | ⟨-, -, rfl⟩ | ⟨f, -, -, hundo⟩ | ⟨f, -, -, -, rfl⟩ := hc
  · exact hv
  · exact hv
  · exact h.trans hv (moves_undo h hundo)
  · exact hv

lemma moves_work (h : fr.guard.snapshots.Moves R) {r : Except Fault Phase}
    (hr : runOn x (work fr a) = (r, y)) : R x.1.2 y.1.2 := by
  obtain ⟨-, hp⟩ | ⟨-, ht⟩ := work_cases hr
  · obtain ⟨_, w, -, rfl, -⟩ := plan_cases hp
    exact h.refl _
  · obtain ⟨_, hc, -⟩ | ⟨_, hc, -, -⟩ | ⟨p, z, p', m, u, hc, -, he, hm⟩ := trial_cases ht
    · exact moves_checkpoint h hc
    · exact moves_checkpoint h hc
    · have hu : R x.1.2 u.1.2 := by
        rw [moves_edit he]
        exact moves_checkpoint h hc
      obtain ⟨ds, -, hs⟩ | ⟨_, -, -, hs⟩ | ⟨_, -, -, -, rfl⟩ := hm
      · exact h.trans hu (moves_settle h hs)
      · exact h.trans hu (moves_undo h hs)
      · exact hu

lemma moves_round (h : fr.guard.snapshots.Moves R) {r : Except Fault (Option (List Diagnostic))}
    (hr : runOn x (round fr a) = (r, y)) : R x.1.2 y.1.2 := by
  have hp : (x.paused fr.settings).1.2 = x.1.2 := by
    unfold State.paused
    split <;> rfl
  obtain ⟨u, z, hu, hc⟩ := round_cases hr
  obtain ⟨_, _, hw, -⟩ := attempt_cases hu
  have hz := moves_work h hw
  rw [hp] at hz
  obtain ⟨_, -, -, rfl⟩ | ⟨_, -, rfl, -⟩ := hc
  · exact hz
  · exact hz

/-! ### Loops -/

/-- The attempts at a category move the state on, from each of them to the end. -/
lemma moves_attempts (h : fr.guard.snapshots.Moves R) (c : Category) (left i : Nat) (records : List Diagnostic)
    {r : Except Fault Unit} (hr : runOn x (attempts fr c left i records) = (r, y)) :
    R x.1.2 y.1.2 ∧ ∀ m ∈ attemptsMade fr c left i records x, R m.2.1.2 y.1.2 := by
  induction left generalizing i records x with
  | zero =>
    obtain ⟨-, rfl⟩ := Prod.mk.inj hr
    exact ⟨h.refl _, fun m hm => absurd hm List.not_mem_nil⟩
  | succ left ih =>
    rw [attempts, runOn_bind] at hr
    rw [attemptsMade]
    rcases hround : runOn x (round fr ⟨c, i, records⟩) with ⟨f | _ | next, z⟩
    · obtain ⟨-, rfl⟩ := Prod.mk.inj (by simpa only [hround] using hr)
      exact ⟨moves_round h hround, fun m hm => by
        obtain rfl := List.mem_singleton.1 hm
        exact moves_round h hround⟩
    · obtain ⟨-, rfl⟩ := Prod.mk.inj (by simpa only [hround, runOn_pure] using hr)
      exact ⟨moves_round h hround, fun m hm => by
        obtain rfl := List.mem_singleton.1 hm
        exact moves_round h hround⟩
    · simp only [hround] at hr
      obtain ⟨hz, hm⟩ := ih (i + 1) next hr
      have hx := h.trans (moves_round h hround) hz
      exact ⟨hx, List.forall_mem_cons.2 ⟨hx, hm⟩⟩

lemma moves_remedy (h : fr.guard.snapshots.Moves R) (c : Category) {r : Except Fault Unit}
    (hr : runOn x (remedy fr c) = (r, y)) :
    R x.1.2 y.1.2 ∧ ∀ m ∈ categoryMade fr c x, R m.2.1.2 y.1.2 := by
  rw [categoryMade]
  rcases remedy_cases hr with ⟨he, -, rfl⟩ | ⟨he, ha⟩
  · rw [he, if_pos rfl]
    exact ⟨h.refl _, fun m hm => absurd hm List.not_mem_nil⟩
  · rw [he, if_neg Bool.false_ne_true]
    exact moves_attempts h c _ 1 _ ha

/-- The attempts at all categories move the state on, from each of them to the end. -/
theorem moves_remedyAll (h : fr.guard.snapshots.Moves R) (ss : List Scheduled) {r : Except Fault Unit}
    (hr : runOn x (remedyAll fr ss) = (r, y)) : R x.1.2 y.1.2 ∧ ∀ m ∈ allMade fr ss x, R m.2.1.2 y.1.2 := by
  induction ss generalizing x with
  | nil =>
    obtain ⟨-, rfl⟩ := Prod.mk.inj hr
    exact ⟨h.refl _, fun m hm => absurd hm List.not_mem_nil⟩
  | cons s ss ih =>
    simp only [remedyAll, runOn_bind, runOn_progress] at hr
    rw [allMade]
    by_cases h0 : (x.1.1.current == 0) = true
    · rw [if_pos h0] at hr ⊢
      obtain ⟨-, rfl⟩ := Prod.mk.inj hr
      exact ⟨h.refl _, fun m hm => absurd hm List.not_mem_nil⟩
    · rw [if_neg h0, runOn_bind] at hr
      rw [if_neg h0]
      rcases hrem : runOn x (remedy fr s.category) with ⟨f | u, z⟩
      · obtain ⟨-, rfl⟩ := Prod.mk.inj (by simpa only [hrem] using hr)
        simpa only [List.append_nil] using moves_remedy h s.category hrem
      · obtain ⟨hx, hm⟩ := moves_remedy h s.category hrem
        obtain ⟨hz, hm'⟩ := ih (by simpa only [hrem] using hr)
        exact ⟨h.trans hx hz, List.forall_mem_append.2 ⟨fun m hmem => h.trans (hm m hmem) hz, hm'⟩⟩

/-- The notes of a watched provider only grow. -/
lemma moves_watched (ops : Snapshots σ) : ops.watched.Moves fun c d => c.2 <+: d.2 where
  refl c := List.prefix_rfl
  trans h h' := h.trans h'
  checkpoint h := by
    obtain ⟨-, rfl⟩ := Prod.mk.inj h
    exact List.prefix_append _ _
  commit h := by
    obtain ⟨-, rfl⟩ := Prod.mk.inj h
    exact List.prefix_append _ _
  revert h := by
    obtain ⟨-, rfl⟩ := Prod.mk.inj h
    exact List.prefix_append _ _

/-! ### Attempts of a watched run -/

lemma forget_paused (x : State (σ × List Call)) (s : Settings) : x.forget.paused s = (x.paused s).forget := by
  have h := same_pause s x
  rw [runOn_pause, runOn_pause] at h
  exact (Prod.mk.inj h).2

lemma attemptsMade_watched (fr : Frame σ) (c : Category) (left i : Nat) (records : List Diagnostic)
    (x : State (σ × List Call)) : attemptsMade fr c left i records x.forget =
      (attemptsMade fr.watched c left i records x).map fun m => (m.1, m.2.forget) := by
  induction left generalizing i records x with
  | zero => rfl
  | succ left ih =>
    rw [attemptsMade, attemptsMade, same_round x, List.map_cons]
    rcases runOn x (round fr.watched ⟨c, i, records⟩) with ⟨f | _ | next, y⟩
    · rfl
    · rfl
    · exact congrArg (List.cons _) (ih (i + 1) next y)

lemma categoryMade_watched (fr : Frame σ) (c : Category) (x : State (σ × List Call)) :
    categoryMade fr c x.forget = (categoryMade fr.watched c x).map fun m => (m.1, m.2.forget) := by
  unfold categoryMade
  change (if (recordsOf x.1.1 c).isEmpty then [] else _) = _
  split
  · rfl
  · exact attemptsMade_watched fr c _ 1 _ (x.turn c)

lemma allMade_watched (fr : Frame σ) (ss : List Scheduled) (x : State (σ × List Call)) :
    allMade fr ss x.forget = (allMade fr.watched ss x).map fun m => (m.1, m.2.forget) := by
  induction ss generalizing x with
  | nil => rfl
  | cons s ss ih =>
    rw [allMade, allMade, same_remedy s.category x, categoryMade_watched]
    change (if x.1.1.current == 0 then [] else _) = _
    split
    · rfl
    · rw [List.map_append]
      rcases runOn x (remedy fr.watched s.category) with ⟨f | _, y⟩
      · rfl
      · exact congrArg _ (ih y)

/-- A run comes to the attempts that it comes to when its provider is watched. -/
theorem attempted_watched {s : Settings} {crew : Crew σ} {w : World} (h : Attempted s crew w fr a x) :
    ∃ x', Attempted s crew.watched w fr.watched a x' ∧ x'.forget = x := by
  obtain ⟨held, z, hp, hm⟩ := h
  obtain ⟨hr, hz⟩ := runOn_prepare_watched s crew (started (opening w))
  change _ = (runOn (started (opening w)) (prepare s crew)).1.map (Option.map noted) at hr
  change _ = (runOn (started (opening w)) (prepare s crew)).2 at hz
  rw [hp] at hr hz
  rcases hq : runOn (started (opening w)) (prepare s crew.watched) with ⟨r, y⟩
  rw [hq] at hr hz
  obtain rfl : r = .ok (some (fr.watched, (held, []))) := hr
  obtain rfl : y.forget = z := hz
  have hmade : runMade s fr held y.forget =
      (runMade s fr.watched (held, []) y).map fun m => (m.1, m.2.forget) :=
    allMade_watched fr _ ((y.note (scheduled s)).inner (held, []))
  rw [hmade, List.mem_map] at hm
  obtain ⟨⟨b, x'⟩, hm, hx⟩ := hm
  obtain ⟨rfl, rfl⟩ := Prod.mk.inj hx
  exact ⟨x', ⟨_, y, hq, hm⟩, rfl⟩

end Run

end Ratchet
