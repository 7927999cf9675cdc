import Ratchet.Proofs.Leading

/-!
The processes that a computation runs.

The journal of a world tells which processes were started, and the script of the world how each of them ends. Between two
worlds of a run the two are put together: `World.exchanges` are the processes that were started, in order, each with how
it ended. `Act.Comes` says of a computation beside a state what it comes to, where it leaves the state, and which processes
it runs on the way; it is kept together by the rule for one computation after another.
-/

namespace Ratchet

/-- A process that was run: its words, and how it ended. -/
abbrev Exchange := List String × ProcessEnd

/-- The words of the process that an event tells the start of. -/
def Event.argv? : Event → Option (List String)
  | process argv .. => some argv
  | _ => none

namespace World

variable {w w' w'' : World} {xs ys : List Exchange}

/-- The processes that were started, in order. -/
def started (w : World) : List (List String) := w.tells Event.argv?

/-- How the process ends that is started after `n` others. -/
def ending (w : World) (n : Nat) : ProcessEnd := (w.processes.getD n {}).ending

/-- The processes that were run between two worlds, each with how it ended. -/
def exchanges (w w' : World) : List Exchange :=
  (w'.started.drop w.started.length).mapIdx fun n argv => (argv, w.ending n)

/-- Between two worlds these processes are run: they are entered in the journal, and they take their ends from the
script. -/
structure Ran (w w' : World) (xs : List Exchange) : Prop where
  started : w'.started = w.started ++ xs.map (·.1)
  endings : ∀ n x, xs[n]? = some x → x.2 = w.ending n
  rest : w'.processes = w.processes.drop xs.length

lemma Ran.exchanges (h : Ran w w' xs) : w.exchanges w' = xs := by
  rw [World.exchanges, h.started, List.drop_left]
  refine List.ext_getElem? fun n => ?_
  rw [List.getElem?_mapIdx, List.getElem?_map]
  rcases hx : xs[n]? with _ | x
  · rfl
  · rw [Option.map_some, Option.map_some, ← h.endings n x hx]

lemma Ran.refl (w : World) : Ran w w [] := ⟨(List.append_nil _).symm, fun _ _ h => absurd h nofun, rfl⟩

lemma Ran.trans (h : Ran w w' xs) (h' : Ran w' w'' ys) : Ran w w'' (xs ++ ys) where
  started := by rw [h'.started, h.started, List.map_append, List.append_assoc]
  endings n x hx := by
    rcases Nat.lt_or_ge n xs.length with hn | hn
    · rw [List.getElem?_append_left hn] at hx
      exact h.endings n x hx
    · rw [List.getElem?_append_right hn] at hx
      rw [h'.endings _ x hx, ending, ending, h.rest, List.getD_eq_getElem?_getD, List.getD_eq_getElem?_getD,
        List.getElem?_drop, Nat.add_sub_cancel' hn]
  rest := by rw [h'.rest, h.rest, List.drop_drop, List.length_append]

/-- Between two worlds no processes are run. -/
def Idle (w w' : World) : Prop := Ran w w' []

instance : Std.Refl Idle := ⟨Ran.refl⟩

instance : IsTrans World Idle := ⟨fun _ _ _ h h' => Ran.trans h h'⟩

/-- A change of the tree runs no process. -/
lemma Idle.tree (w : World) (t : Tree) : Idle w { w with tree := t } :=
  ⟨(List.append_nil _).symm, fun _ _ h => absurd h nofun, rfl⟩

end World

namespace Act

variable {σ α β : Type} {s : σ} {w : World}

lemma Leads.idle_writeBytes (path : String) (b : ByteArray) : Leads World.Idle (Act.writeBytes path b) :=
  .bind .get fun _ => .edit fun w t _ => .tree w t

/-- A process is entered in the journal and ends as the script says. -/
lemma ran_process (argv : List String) (dir : String) :
    ∃ w', runOn w (process argv dir) = (.ok (w.ending 0), w') ∧ w.Ran w' [(argv, w.ending 0)] := by
  have hend : w.ending 0 = (w.processes.headD {}).ending := by
    rw [World.ending]
    cases w.processes <;> rfl
  rw [hend]
  refine ⟨_, rfl, World.tells_note Event.argv? w _, fun n x hx => ?_, List.drop_one.symm⟩
  rcases n with _ | n
  · rw [← Option.some.inj hx, ← hend]
  · exact absurd hx nofun

/-- What a computation comes to from a state, where it leaves the state, and which processes have been run by then, after
those that were run before it; in whatever world it is done. -/
def Comes (s : σ) (xs : List Exchange) (a : Keeping σ α) (Q : Except Fault α → σ → List Exchange → Prop) : Prop :=
  ∀ w, ∃ ys, w.Ran (runOn (s, w) a).2.2 ys ∧ Q (runOn (s, w) a).1 (runOn (s, w) a).2.1 (xs ++ ys)

namespace Comes

variable {xs : List Exchange} {Q : Except Fault α → σ → List Exchange → Prop}

/-- What is said of the processes so far is said of them when none are added. -/
lemma of_idle {a : Keeping σ α} (h : ∀ w, w.Idle (runOn (s, w) a).2.2 ∧ Q (runOn (s, w) a).1 (runOn (s, w) a).2.1 xs) :
    Comes s xs a Q := by
  intro w
  refine ⟨[], (h w).1, ?_⟩
  rw [List.append_nil]
  exact (h w).2

lemma imp {R : Except Fault α → σ → List Exchange → Prop} {a : Keeping σ α} (h : Comes s xs a Q)
    (hQ : ∀ r s' ys, Q r s' ys → R r s' ys) : Comes s xs a R := fun w =>
  let ⟨ys, hran, hq⟩ := h w
  ⟨ys, hran, hQ _ _ _ hq⟩

lemma pure {x : α} (h : Q (.ok x) s xs) : Comes s xs (Pure.pure x) Q := of_idle fun w => ⟨.refl w, h⟩

lemma throw {f : Fault} (h : Q (.error f) s xs) : Comes s xs (MonadExcept.throw f) Q := of_idle fun w => ⟨.refl w, h⟩

lemma keep {Q : Except Fault Unit → σ → List Exchange → Prop} {g : σ → σ} (h : Q (.ok ()) (g s) xs) :
    Comes s xs (Act.keep g) Q := of_idle fun w => ⟨.refl w, h⟩

/-- An act beside the state that runs no processes. -/
lemma beside {a : Act α} (h : Leads World.Idle a) (hQ : ∀ r, Q r s xs) : Comes s xs (Act.beside a) Q :=
  of_idle fun w => ⟨h w, hQ _⟩

lemma told {a : Keeping σ α} {meant : FaultKind → Bool} {wrap : Fault → Fault}
    (h : Comes s xs a fun r s' ys => Q (r.mapError fun f => if meant f.kind then wrap f else f) s' ys) :
    Comes s xs (Act.told meant wrap a) Q := by
  intro w
  rw [runOn_told]
  exact h w

/-- One computation after another, unless the first fails. -/
lemma bind {a : Keeping σ β} {k : β → Keeping σ α} {P : Except Fault β → σ → List Exchange → Prop} (ha : Comes s xs a P)
    (hk : ∀ x s' ys, P (.ok x) s' ys → Comes s' ys (k x) Q) (hf : ∀ f s' ys, P (.error f) s' ys → Q (.error f) s' ys) :
    Comes s xs (a >>= k) Q := by
  intro w
  obtain ⟨ys, hran, hp⟩ := ha w
  rw [runOn_bind]
  rcases hr : runOn (s, w) a with ⟨f | x, s', w'⟩
  · rw [hr] at hran hp
    exact ⟨ys, hran, hf f s' _ hp⟩
  · rw [hr] at hran hp
    obtain ⟨zs, hran', hq⟩ := hk x s' _ hp w'
    rw [List.append_assoc] at hq
    exact ⟨ys ++ zs, hran.trans hran', hq⟩

/-! What follows a step that cannot fail. -/

lemma kept_bind {k : σ → Keeping σ α} (h : Comes s xs (k s) Q) : Comes s xs (Act.kept >>= k) Q := h

lemma keep_bind {g : σ → σ} {k : Unit → Keeping σ α} (h : Comes (g s) xs (k ()) Q) : Comes s xs (Act.keep g >>= k) Q := h

lemma pure_bind {x : β} {k : β → Keeping σ α} (h : Comes s xs (k x) Q) : Comes s xs (Pure.pure x >>= k) Q := h

lemma throw_bind {f : Fault} {k : β → Keeping σ α} (h : Q (.error f) s xs) :
    Comes s xs ((MonadExcept.throw f : Keeping σ β) >>= k) Q := of_idle fun w => ⟨.refl w, h⟩

lemma get_bind {k : σ × World → Keeping σ α} (h : ∀ w, Comes s xs (k (s, w)) Q) : Comes s xs (get >>= k) Q :=
  fun w => h w w

/-- What follows a process goes on with its end. -/
lemma process_bind {argv : List String} {dir : String} {k : ProcessEnd → Keeping σ α}
    (h : ∀ e, Comes s (xs ++ [(argv, e)]) (k e) Q) : Comes s xs (Act.beside (Act.process argv dir) >>= k) Q := by
  intro w
  obtain ⟨w', hrun, hran⟩ := ran_process (w := w) argv dir
  obtain ⟨ys, hran', hq⟩ := h (w.ending 0) w'
  rw [List.append_assoc] at hq
  rw [runOn_bind, runOn_beside, hrun]
  exact ⟨_, hran.trans hran', hq⟩

end Comes

end Act

end Ratchet
