import Mathlib.Tactic
import Ratchet.Proofs.Run.Watch

/-!
Checkpoints that are settled.

A checkpoint is settled by a commit that is done or by a revert. `Settled` says of the calls of a
snapshot provider that each checkpoint is settled before the next one and before the end; `Call.after`
decides it by going through the calls once and remembering whether a checkpoint is open.
-/

namespace Ratchet

namespace Call

/-- Whether a call is a checkpoint, done or not. -/
def takes : Call → Bool
  | checkpoint _ => true
  | _ => false

/-- Whether a call settles the checkpoint before it. -/
def settles : Call → Bool
  | commit done => done
  | revert _ => true
  | checkpoint _ => false

/-- Whether a checkpoint is open after a call; nothing, once a checkpoint was taken on an open one. -/
def step : Option Bool → Call → Option Bool
  | some false, checkpoint done => some done
  | some true, checkpoint _ => none
  | some opened, commit done => some (opened && !done)
  | some _, revert _ => some false
  | none, _ => none

/-- Whether a checkpoint is open after calls. -/
def after (cs : List Call) : Option Bool := cs.foldl step (some false)

@[simp] lemma after_nil : after [] = some false := rfl

lemma after_append (cs ds : List Call) : after (cs ++ ds) = ds.foldl step (after cs) := List.foldl_append

end Call

/-- Calls that settle an open checkpoint before another one is taken. -/
def SettlesNext (cs : List Call) : Prop :=
  ∃ mid c rest, cs = mid ++ c :: rest ∧ c.settles = true ∧ ∀ d ∈ mid, d.takes = false

/-- Every checkpoint that was taken is settled before the next one and before the end. -/
def Settled (cs : List Call) : Prop :=
  ∀ before rest, cs = before ++ .checkpoint true :: rest → SettlesNext rest

lemma settlesNext_cons (c : Call) (cs : List Call) :
    SettlesNext (c :: cs) ↔ c.settles = true ∨ (c.takes = false ∧ SettlesNext cs) := by
  constructor
  · rintro ⟨_ | ⟨m, mid⟩, d, rest, h, hd, hmid⟩
    · obtain ⟨rfl, -⟩ := List.cons.inj h
      exact .inl hd
    · obtain ⟨rfl, ht⟩ := List.cons.inj h
      exact .inr ⟨hmid c List.mem_cons_self, mid, d, rest, ht, hd,
        fun e he => hmid e (List.mem_cons_of_mem c he)⟩
  · rintro (h | ⟨hc, mid, d, rest, h, hd, hmid⟩)
    · exact ⟨[], c, cs, rfl, h, fun d hd => absurd hd List.not_mem_nil⟩
    · refine ⟨c :: mid, d, rest, by rw [h, List.cons_append], hd, fun e he => ?_⟩
      rcases List.mem_cons.1 he with rfl | he
      · exact hc
      · exact hmid e he

lemma settled_cons (c : Call) (cs : List Call) :
    Settled (c :: cs) ↔ (c = .checkpoint true → SettlesNext cs) ∧ Settled cs := by
  constructor
  · intro h
    exact ⟨fun hc => h [] cs (by rw [hc, List.nil_append]),
      fun before rest hr => h (c :: before) rest (by rw [hr, List.cons_append])⟩
  · rintro ⟨hc, hs⟩ before rest h
    rcases before with _ | ⟨b, before⟩
    · obtain ⟨rfl, rfl⟩ := List.cons.inj h
      exact hc rfl
    · exact hs before rest (List.cons.inj h).2

lemma foldl_step_none (cs : List Call) : cs.foldl Call.step none = none := by
  induction cs with
  | nil => rfl
  | cons c cs ih => exact ih

/-- The calls are settled when a closed checkpoint is left closed, and an open one is settled next. -/
lemma settled_iff_foldl (cs : List Call) :
    (Settled cs ↔ cs.foldl Call.step (some false) = some false) ∧
      (SettlesNext cs ∧ Settled cs ↔ cs.foldl Call.step (some true) = some false) := by
  induction cs with
  | nil =>
    refine ⟨iff_of_true (fun before rest h => absurd h (by simp)) rfl, iff_of_false ?_ nofun⟩
    rintro ⟨⟨mid, c, rest, h, -⟩, -⟩
    exact absurd h (by simp)
  | cons c cs ih =>
    rw [settlesNext_cons, settled_cons, List.foldl_cons, List.foldl_cons]
    rcases c with ⟨_ | _⟩ | ⟨_ | _⟩ | _
    · simpa [Call.step, Call.settles, Call.takes, foldl_step_none] using ih.1
    · simpa [Call.step, Call.settles, Call.takes, foldl_step_none] using ih.2
    · simpa [Call.step, Call.settles, Call.takes] using ih
    · simpa [Call.step, Call.settles, Call.takes] using ih.1
    · simpa [Call.step, Call.settles, Call.takes] using ih.1

/-- The calls are settled exactly when no checkpoint is open after them and none was taken on another. -/
theorem settled_iff (cs : List Call) : Settled cs ↔ Call.after cs = some false := (settled_iff_foldl cs).1

example : Settled [.checkpoint true, .commit false, .revert false, .checkpoint false] :=
  (settled_iff _).2 (by decide)

end Ratchet
