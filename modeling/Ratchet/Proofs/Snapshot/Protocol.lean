import Ratchet.Proofs.Snapshot.Repository

/-!
Operations on a repository, one after another.

The provider is given operations in any order, each may fail at any process, and between two of them anything may happen.
The commit that it has in mind is a function of the turns so far (`Turn.memory`): a checkpoint that is answered twice when
it asks for the current commit keeps the second answer, a commit or a revert that is done keeps none, and every other turn
leaves it as it is. So a commit in mind is the one that stands (`stands_of_memory`), and what each turn asks of git is told
by the turns before it alone (`Protocol`).
-/

namespace Ratchet.GitSnapshots

open Act

/-- An operation of the provider. -/
inductive Operation
  | checkpoint (label : String) (files : List String)
  | commit (label : String)
  | revert
  deriving DecidableEq

namespace Operation

/-- What an operation does. -/
def act : Operation → Keeping GitSnapshots Unit
  | checkpoint label files => operations.checkpoint label files
  | commit label => operations.commit label
  | revert => operations.revert

/-- Whether an operation is a checkpoint. -/
def isCheckpoint : Operation → Bool
  | checkpoint .. => true
  | commit _ | revert => false

end Operation

/-- An operation that was done: how it ended, and which processes it ran. -/
structure Turn where
  operation : Operation
  result : Except Fault Unit
  ran : List Exchange

/-- An operation done in a state and a world. -/
def turn (s : GitSnapshots) (o : Operation) (w : World) : Turn :=
  ⟨o, (runOn (s, w) o.act).1, w.exchanges (runOn (s, w) o.act).2.2⟩

/-- Operations done one after another, each in a world of its own: anything may have happened since the last one, and the
world says what becomes of each process. -/
def play (s : GitSnapshots) : List (Operation × World) → List Turn
  | [] => []
  | (o, w) :: rest => turn s o w :: play (runOn (s, w) o.act).2.1 rest

variable {s s' : GitSnapshots} {excluded : List String} {c : Option String} {past later : List Turn} {t : Turn}

namespace Turn

/-- What git was asked to do on a turn, each time with how it ended. -/
def orders (t : Turn) : List Exchange := GitSnapshots.orders t.ran

/-- What git answered on a turn when it was asked which commit is the current one. -/
def heads (t : Turn) : List (Option String) := GitSnapshots.heads t.ran

/-- The commit in mind after a turn that began with `c` in mind. -/
def memory (c : Option String) (t : Turn) : Option String :=
  if t.operation.isCheckpoint then remembered t.heads c else unlessDone t.result c

/-- A checkpoint that is answered twice when it asks for the current commit; the second answer is `c`. -/
def Remembers (t : Turn) (c : Option String) : Prop := t.operation.isCheckpoint ∧ ∃ first, t.heads = [first, c]

/-- A commit or a revert that is done. -/
def Settles (t : Turn) : Prop := t.operation.isCheckpoint = false ∧ t.result = .ok ()

/-- A turn either keeps its answer, or settles and keeps nothing, or leaves the commit in mind as it is. -/
lemma memory_cases (c : Option String) (t : Turn) :
    t.Remembers (t.memory c) ∨ (t.Settles ∧ t.memory c = none) ∨
      ((∀ d, ¬ t.Remembers d) ∧ ¬ t.Settles ∧ t.memory c = c) := by
  rw [memory]
  rcases hop : t.operation.isCheckpoint with _ | _
  · have hforgets : ∀ d, ¬ t.Remembers d := fun d h => by simp [h.1] at hop
    rcases hr : t.result with f | _
    · exact .inr (.inr ⟨hforgets, fun h => absurd (hr.symm.trans h.2) nofun, rfl⟩)
    · exact .inr (.inl ⟨⟨hop, hr⟩, rfl⟩)
  · have hopen : ¬ t.Settles := fun h => by simp [h.1] at hop
    rw [if_pos rfl]
    unfold remembered
    split
    · rename_i first d hh
      exact .inl ⟨hop, first, hh⟩
    · rename_i hh
      exact .inr (.inr ⟨fun d ⟨_, first, h⟩ => hh first d h, hopen, rfl⟩)

/-- What a turn does that begins with `c` in mind. -/
inductive Does (excluded : List String) (c : Option String) (t : Turn) : Prop
  | mild (h : t.operation ≠ .revert) (mild : ∀ x ∈ t.orders, IsMild excluded x.1)
  | nothing (h : t.operation = .revert) (hc : c.getD "" = "") (ran : t.ran = [])
    (result : t.result = .error (.plain .snapshot "No git checkpoint to revert to"))
  | undoes (d : String) (h : t.operation = .revert) (hc : c = some d) (undoes : Undoes excluded d t.orders)

end Turn

/-! ### One turn, and all of them -/

/-- What one turn does, and how it leaves the provider. -/
lemma turn_does (hk : Known s) (o : Operation) (w : World) :
    Leaves s (runOn (s, w) o.act).2.1 ((turn s o w).memory s.commit) ∧ (turn s o w).Does s.excluded s.commit := by
  cases o with
  | checkpoint label files =>
    obtain ⟨xs, hran, hleaves, hmild⟩ := comes_checkpoint hk label files w
    obtain rfl := hran.exchanges
    exact ⟨hleaves, .mild nofun hmild⟩
  | commit label =>
    obtain ⟨xs, hran, hleaves, hmild⟩ := comes_record hk label w
    obtain rfl := hran.exchanges
    exact ⟨hleaves, .mild nofun hmild⟩
  | revert =>
    by_cases hc : s.commit.getD "" = ""
    · have hrun : runOn (s, w) Operation.revert.act = _ := runOn_revert_nothing hc
      have hturn : turn s .revert w = ⟨.revert, .error (.plain .snapshot "No git checkpoint to revert to"), []⟩ := by
        rw [turn, hrun, (World.Ran.refl w).exchanges]
      rw [hturn, hrun]
      exact ⟨⟨hk, rfl, rfl⟩, .nothing rfl hc rfl rfl⟩
    · obtain ⟨d, hd⟩ : ∃ d, s.commit = some d := Option.ne_none_iff_exists'.1 fun h => hc (h ▸ rfl)
      obtain ⟨xs, hran, hleaves, hundoes⟩ := comes_revert hk hd (fun h => hc (by rw [hd, h]; rfl)) w
      obtain rfl := hran.exchanges
      exact ⟨hleaves, .undoes d rfl hd hundoes⟩

/-- What each turn does, with the commit in mind that the turns before it leave. -/
lemma play_does (hk : Known s) (calls : List (Operation × World)) (h : play s calls = past ++ t :: later) :
    t.Does s.excluded (past.foldl Turn.memory s.commit) := by
  -- The first turn leaves the commit in mind with which the other turns begin.
  induction calls generalizing s past with
  | nil => exact absurd h.symm (List.append_ne_nil_of_right_ne_nil _ (List.cons_ne_nil _ _))
  | cons call calls ih =>
    obtain ⟨o, w⟩ := call
    obtain ⟨hleaves, hdoes⟩ := turn_does hk o w
    rcases past with _ | ⟨u, past⟩
    · rw [← (List.cons.inj h).1]
      exact hdoes
    · obtain ⟨hu, hrest⟩ := List.cons.inj h
      have hdoes' := ih hleaves.known hrest
      rw [hleaves.excluded, hleaves.commit] at hdoes'
      rwa [List.foldl_cons, ← hu]

/-! ### The commit that stands -/

/-- A commit stands when a checkpoint kept it, and no checkpoint after that kept another answer and nothing was settled. -/
def Stands (past : List Turn) (c : String) : Prop :=
  ∃ before u between, past = before ++ u :: between ∧ u.Remembers (some c) ∧
    ∀ v ∈ between, (∀ d, ¬ v.Remembers d) ∧ ¬ v.Settles

/-- No checkpoint has been made since the last commit or revert that was done, or none at all. -/
def Settled (past : List Turn) : Prop :=
  ∀ before u between, past = before ++ u :: between → u.operation.isCheckpoint → ∃ v ∈ between, v.Settles

/-- A commit in mind is the one that stands. -/
lemma stands_of_memory {c : String} (h : past.foldl Turn.memory none = some c) : Stands past c := by
  -- From the last turn back: it kept the commit itself, or it left the one that stood before.
  induction past using List.reverseRecOn with
  | nil => exact absurd h nofun
  | append_singleton past t ih =>
    rw [List.foldl_concat] at h
    rcases t.memory_cases (past.foldl Turn.memory none) with hkeeps | ⟨-, hnone⟩ | ⟨hforgets, hopen, hsame⟩
    · rw [h] at hkeeps
      exact ⟨past, t, [], rfl, hkeeps, fun _ hv => absurd hv List.not_mem_nil⟩
    · exact absurd (hnone.symm.trans h) nofun
    · obtain ⟨before, u, between, rfl, hu, hbetween⟩ := ih (hsame.symm.trans h)
      refine ⟨before, u, between ++ [t], by rw [List.append_assoc, List.cons_append], hu, fun v hv => ?_⟩
      rcases List.mem_append.1 hv with hv | hv
      · exact hbetween v hv
      · rw [List.mem_singleton.1 hv]
        exact ⟨hforgets, hopen⟩

/-- There is nothing in mind once all is settled. -/
lemma Settled.memory (h : Settled past) : past.foldl Turn.memory none = none := by
  refine Option.eq_none_iff_forall_ne_some.2 fun c hc => ?_
  obtain ⟨before, u, between, hpast, hu, hbetween⟩ := stands_of_memory hc
  obtain ⟨v, hv, hsettles⟩ := h before u between hpast hu.1
  exact (hbetween v hv).2 hsettles

/-! ### The protocol -/

/-- What turns ask of git, told by the turns before them. -/
structure Protocol (excluded : List String) (ts : List Turn) : Prop where
  /-- The tree is reset in a revert only, and to the commit that stands. -/
  reset : ∀ past t later, ts = past ++ t :: later → ∀ x ∈ t.orders, x.1.head? = some "reset" →
    t.operation = .revert ∧ ∃ c, x.1 = resetOrder c ∧ Stands past c
  /-- The tree is cleaned after a reset that was done in the same revert, and all that is excluded is spared. -/
  clean : ∀ past t later, ts = past ++ t :: later → ∀ before x after, t.orders = before ++ x :: after →
    x.1.head? = some "clean" → t.operation = .revert ∧ (∃ c output errors, (resetOrder c, .exit 0 output errors) ∈ before) ∧
      ∀ p ∈ excluded, ["-e", p] <:+: x.1
  /-- Nothing that is excluded is staged. -/
  add : ∀ t ∈ ts, ∀ x ∈ t.orders, x.1.head? = some "add" →
    ∃ options paths, x.1 = options ++ "--" :: paths ∧ ∀ p ∈ excluded, ":(exclude)" ++ p ∈ paths
  /-- A revert before any checkpoint, or after a commit or a revert that was done, fails and runs no process. -/
  idle : ∀ past t later, ts = past ++ t :: later → t.operation = .revert → Settled past →
    t.ran = [] ∧ t.result = .error (.plain .snapshot "No git checkpoint to revert to")

namespace Turn.Does

lemma reset (h : t.Does excluded c) {x : Exchange} (hx : x ∈ t.orders) (hhead : x.1.head? = some "reset") :
    t.operation = .revert ∧ ∃ d, x.1 = resetOrder d ∧ c = some d := by
  cases h with
  | mild _ hmild => exact absurd hhead ((hmild x hx).head_ne (by decide))
  | nothing _ _ hran _ => rw [orders, hran] at hx; exact absurd hx List.not_mem_nil
  | undoes d hop hc hundoes => exact ⟨hop, d, (hundoes.cases hx).resolve_right fun h => by simp [h, cleanOrder] at hhead, hc⟩

lemma clean (h : t.Does excluded c) {x : Exchange} {before after : List Exchange} (ho : t.orders = before ++ x :: after)
    (hhead : x.1.head? = some "clean") :
    t.operation = .revert ∧ (∃ c output errors, (resetOrder c, .exit 0 output errors) ∈ before) ∧
      ∀ p ∈ excluded, ["-e", p] <:+: x.1 := by
  have hx : x ∈ t.orders := ho ▸ List.mem_append_right _ List.mem_cons_self
  cases h with
  | mild _ hmild => exact absurd hhead ((hmild x hx).head_ne (by decide))
  | nothing _ _ hran _ => rw [orders, hran] at hx; exact absurd hx List.not_mem_nil
  | undoes d hop hc hundoes =>
    obtain ⟨hwords, output, errors, hbefore⟩ := hundoes.clean_cases ho hhead
    exact ⟨hop, ⟨d, output, errors, hbefore⟩, fun p hp => hwords ▸ exclude_infix_cleanOrder hp⟩

lemma add (h : t.Does excluded c) {x : Exchange} (hx : x ∈ t.orders) (hhead : x.1.head? = some "add") :
    ∃ options paths, x.1 = options ++ "--" :: paths ∧ ∀ p ∈ excluded, ":(exclude)" ++ p ∈ paths := by
  cases h with
  | mild _ hmild => exact (hmild x hx).add hhead
  | nothing _ _ hran _ => rw [orders, hran] at hx; exact absurd hx List.not_mem_nil
  | undoes d hop hc hundoes =>
    rcases hundoes.cases hx with h | h
    · simp [h, resetOrder] at hhead
    · simp [h, cleanOrder] at hhead

lemma idle (h : t.Does excluded none) (hop : t.operation = .revert) :
    t.ran = [] ∧ t.result = .error (.plain .snapshot "No git checkpoint to revert to") := by
  cases h with
  | mild hne _ => exact absurd hop hne
  | nothing _ _ hran hresult => exact ⟨hran, hresult⟩
  | undoes _ _ hc _ => exact absurd hc nofun

end Turn.Does

/-- **Whatever is asked of the provider, and whatever becomes of each process, git is asked by the protocol.** -/
theorem protocol_play (here workspace : String) (excludes : List String) (calls : List (Operation × World)) :
    Protocol (Snapshots.excludedIn here (Path.absolute here workspace) excludes)
      (play (ofWorkspace here workspace excludes) calls) := by
  have hdoes : ∀ {past t later}, play (ofWorkspace here workspace excludes) calls = past ++ t :: later →
      t.Does (Snapshots.excludedIn here (Path.absolute here workspace) excludes) (past.foldl Turn.memory none) :=
    fun h => play_does (s := ofWorkspace here workspace excludes) (fun _ ho => absurd ho nofun) calls h
  exact {
    reset := fun past t later h x hx hhead => by
      obtain ⟨hop, c, hwords, hc⟩ := (hdoes h).reset hx hhead
      exact ⟨hop, c, hwords, stands_of_memory hc⟩
    clean := fun past t later h before x after ho hhead => (hdoes h).clean ho hhead
    add := fun t ht x hx hhead => by
      obtain ⟨past, later, h⟩ := List.append_of_mem ht
      exact (hdoes h).add hx hhead
    idle := fun past t later h hop hsettled => by
      have ht := hdoes h
      rw [hsettled.memory] at ht
      exact ht.idle hop }

/-- A checkpoint of a clean tree asks for the current commit twice, and the revert goes back to it. -/
example :
    (play (ofWorkspace "/w" "/w" ["keep"])
      [(.checkpoint "a" [], { processes := ["me", "", "", "c", "c\n"].map fun output => { ending := .exit 0 output "" } }),
        (.revert, {})]).map (·.orders.map (·.1)) =
      [[addOrder ["keep"], ["diff", "--cached", "--quiet"], headOrder, headOrder], [resetOrder "c", cleanOrder ["keep"]]] := by
  decide +kernel

end Ratchet.GitSnapshots
