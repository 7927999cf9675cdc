import Ratchet.Proofs.Snapshot.Protocol

/-!
Checkpoints that fail.

What the provider has in mind is a commit and, with it, the bytes of the named files that git ignores. An operation that
fails is to leave both as they were, so that a revert never puts one checkpoint's commit together with another one's
files. The bytes change with the last step of an operation only, which cannot fail (`sameBytes_of_error`). The commit
changes earlier: a checkpoint that is told the current commit a second time has it in mind before it reads the ignored
files, and when that fails the commit stays beside the old bytes. Such a checkpoint is torn (`Turn.Tears`), and no other
failure changes what is in mind.
-/

namespace Ratchet.GitSnapshots

open Act

variable {s s' : GitSnapshots} {w w' : World} {f : Fault} {o : Operation} {α β : Type}

/-- What the provider has in mind: the commit of a checkpoint, and the bytes of the ignored files that were named there. -/
def mind (s : GitSnapshots) : Option String × List (String × ByteArray) := (s.commit, s.ignored)

/-! ### The bytes in mind -/

/-- The same bytes of ignored files are in mind. -/
def SameBytes (q q' : GitSnapshots × World) : Prop := q'.1.ignored = q.1.ignored

instance : Std.Refl SameBytes := ⟨fun _ => rfl⟩

instance : IsTrans (GitSnapshots × World) SameBytes := ⟨fun _ _ _ h h' => Eq.trans h' h⟩

lemma sameBytes_beside (a : Act α) : Leads SameBytes (beside a) := fun _ => rfl

lemma sameBytes_kept : Leads SameBytes (kept : Keeping GitSnapshots GitSnapshots) := fun _ => rfl

lemma sameBytes_keep {g : GitSnapshots → GitSnapshots} (h : ∀ s, (g s).ignored = s.ignored) :
    Leads SameBytes (keep g) := fun q => h q.1

lemma sameBytes_identityOptions : Leads SameBytes identityOptions := by
  refine .bind sameBytes_kept fun s => ?_
  rcases s.identity with _ | options
  · have hfound : ∀ options, Leads SameBytes (do
        Act.keep fun s : GitSnapshots => { s with identity := some options }
        return options) := fun options => .bind (sameBytes_keep fun _ => rfl) fun _ => .pure _
    refine .bind (sameBytes_beside _) fun e => ?_
    rcases e with ⟨code, output, errors⟩ | _ | cause
    · exact .bind (.pure _) hfound
    · exact .bind (.throw _) hfound
    · exact .bind (.pure _) hfound
  · exact .pure _

lemma sameBytes_git (check : Bool) (args : List String) : Leads SameBytes (git check args) := by
  refine .bind sameBytes_identityOptions fun _ => .bind sameBytes_kept fun _ => .bind (sameBytes_beside _) fun e => ?_
  rcases e with ⟨code, output, errors⟩ | _ | cause
  · exact .ite _ (.throw _) (.pure _)
  · exact .throw _
  · exact .throw _

lemma sameBytes_stageAndCommit (message : String) : Leads SameBytes (stageAndCommit message) := by
  refine .bind sameBytes_kept fun _ => .bind (sameBytes_git _ _) fun _ => .bind (sameBytes_git _ _) fun _ => ?_
  exact .ite _ (.pure _) (.bind (sameBytes_git _ _) fun _ => .pure _)

lemma sameBytes_head : Leads SameBytes head := .bind (sameBytes_git _ _) fun _ => .pure _

lemma sameBytes_readIgnored (files : List String) : Leads SameBytes (readIgnored files) := by
  refine .bind .get fun _ => .ite _ (.pure _) (.bind (sameBytes_git _ _) fun _ => .told _ _ (sameBytes_beside _))

/-- Whether a computation that fails leaves the bytes in mind as they were. -/
def Careful (a : Keeping GitSnapshots α) : Prop := ∀ q f q', runOn q a = (.error f, q') → SameBytes q q'

namespace Careful

lemma keep (g : GitSnapshots → GitSnapshots) : Careful (Act.keep g) := fun _ _ _ h => absurd (Prod.mk.inj h).1 nofun

lemma throw (f : Fault) : Careful (MonadExcept.throw f : Keeping GitSnapshots α) := fun q f' q' h => by
  rw [← (Prod.mk.inj h).2]
  rfl

lemma bind {a : Keeping GitSnapshots β} {k : β → Keeping GitSnapshots α} (h : Leads SameBytes a) (hk : ∀ x, Careful (k x)) :
    Careful (a >>= k) := by
  intro q f q' hr
  have hq := h q
  rcases of_bind_error hr with hr | ⟨x, u, hx, hr⟩
  · rwa [hr] at hq
  · rw [hx] at hq
    exact IsTrans.trans _ _ _ hq (hk x u f q' hr)

end Careful

/-- An operation that fails leaves the bytes in mind as they were: only its last step changes them. -/
lemma sameBytes_of_error (h : runOn (s, w) o.act = (.error f, (s', w'))) : s'.ignored = s.ignored := by
  have hcareful : Careful o.act := by
    cases o with
    | checkpoint label files =>
      have hrest : Careful (do
          let commit ← head
          Act.keep fun s => { s with commit }
          let ignored ← readIgnored files
          Act.keep fun s => { s with ignored }) :=
        .bind sameBytes_head fun _ => .bind (sameBytes_keep fun _ => rfl) fun _ =>
          .bind (sameBytes_readIgnored files) fun _ => .keep _
      refine .bind (sameBytes_stageAndCommit _) fun _ => .bind sameBytes_head fun c => ?_
      dsimp only
      split
      · exact .bind (sameBytes_git _ _) fun _ => hrest
      · exact hrest
    | commit label => exact .bind (sameBytes_stageAndCommit _) fun _ => .keep _
    | revert =>
      refine .bind sameBytes_kept fun s => ?_
      dsimp only
      split
      · exact .throw _
      · exact .bind (sameBytes_git _ _) fun _ => .bind (sameBytes_git _ _) fun _ =>
          .bind (.told _ _ (sameBytes_beside _)) fun _ => .keep _
  exact hcareful _ _ _ h

/-! ### One operation -/

namespace Turn

/-- Whether a turn tears what is in mind: it fails although it was told the current commit a second time, and that is
another one than the one in mind. -/
def Tears (c : Option String) (t : Turn) : Prop := t.result ≠ .ok () ∧ ∃ d, t.Remembers d ∧ d ≠ c

/-- A turn keeps one answer only. -/
lemma Remembers.unique {t : Turn} {c d : Option String} (h : t.Remembers c) (h' : t.Remembers d) : c = d := by
  obtain ⟨-, first, hc⟩ := h
  obtain ⟨-, first', hd⟩ := h'
  rw [hc] at hd
  exact (List.cons.inj (List.cons.inj hd).2).1

/-- A turn that fails has the old commit in mind, unless it tears. -/
lemma memory_eq_iff {t : Turn} {c : Option String} (h : t.result ≠ .ok ()) : t.memory c = c ↔ ¬ t.Tears c := by
  rcases t.memory_cases c with hkeeps | ⟨hsettles, -⟩ | ⟨hforgets, -, hsame⟩
  · refine ⟨fun hsame ⟨_, d, hd, hne⟩ => hne ?_, fun htears => ?_⟩
    · rw [hd.unique hkeeps, hsame]
    · by_contra hne
      exact htears ⟨h, _, hkeeps, hne⟩
  · exact absurd hsettles.2 h
  · exact iff_of_true hsame fun ⟨_, d, hd, _⟩ => hforgets d hd

end Turn

/-- **An operation that fails leaves what is in mind as it was, exactly when it does not tear.** -/
lemma mind_eq_iff (hk : Known s) (h : runOn (s, w) o.act = (.error f, (s', w'))) :
    s'.mind = s.mind ↔ ¬ (turn s o w).Tears s.commit := by
  have hfails : (turn s o w).result ≠ .ok () := by
    rw [turn, h]
    exact fun hok => by cases hok
  have hleaves := (turn_does hk o w).1
  rw [h] at hleaves
  rw [mind, mind, Prod.mk.injEq, hleaves.commit, and_iff_left (sameBytes_of_error h), Turn.memory_eq_iff hfails]

/-! ### One after another -/

/-- The provider after operations, each in a world of its own, and what it would have in mind if every operation that
failed had left that as it was. -/
def played (s : GitSnapshots) (calls : List (Operation × World)) :
    GitSnapshots × (Option String × List (String × ByteArray)) :=
  calls.foldl (fun x call =>
    let q := runOn (x.1, call.2) call.1.act
    (q.2.1, match q.1 with
      | .ok () => q.2.1.mind
      | .error _ => x.2)) (s, s.mind)

lemma played_concat (s : GitSnapshots) (calls : List (Operation × World)) (o : Operation) (w : World) :
    played s (calls ++ [(o, w)]) =
      ((runOn ((played s calls).1, w) o.act).2.1, match (runOn ((played s calls).1, w) o.act).1 with
        | .ok () => (runOn ((played s calls).1, w) o.act).2.1.mind
        | .error _ => (played s calls).2) := by
  rw [played, List.foldl_concat]
  rfl

/-- Whatever is done, what is known of the committer is that options are needed or not. -/
lemma known_played (hk : Known s) (calls : List (Operation × World)) : Known (played s calls).1 := by
  induction calls using List.reverseRecOn with
  | nil => exact hk
  | append_singleton calls call ih =>
    rw [played_concat]
    exact (turn_does ih call.1 call.2).1.known

/-- What is in mind after one more operation is as it should be, if it was before, exactly when the operation does not
tear. -/
lemma mind_played_concat (hk : Known s) {calls : List (Operation × World)} (h : (played s calls).1.mind = (played s calls).2) :
    (played s (calls ++ [(o, w)])).1.mind = (played s (calls ++ [(o, w)])).2 ↔
      ¬ (turn (played s calls).1 o w).Tears (played s calls).1.commit := by
  rw [played_concat]
  rcases hr : runOn ((played s calls).1, w) o.act with ⟨f | _, s', w'⟩
  · dsimp only
    rw [← h]
    exact mind_eq_iff (known_played hk calls) hr
  · refine iff_of_true rfl fun htears => htears.1 ?_
    rw [turn, hr]

/-- **A checkpoint that fails leaves what is in mind as it was, exactly when it does not tear.** So at any time of operations
one after another the provider has in mind what the last one that was done left there, the commit together with the bytes,
exactly when none of them tears. -/
theorem mind_kept_iff (hk : Known s) :
    (∀ label files w f s' w', runOn (s, w) (checkpoint label files) = (.error f, (s', w')) →
      (s'.mind = s.mind ↔ ¬ (turn s (.checkpoint label files) w).Tears s.commit)) ∧
    ∀ calls, (∀ past, past <+: calls → (played s past).1.mind = (played s past).2) ↔
      ∀ past o w, past ++ [(o, w)] <+: calls → ¬ (turn (played s past).1 o w).Tears (played s past).1.commit := by
  refine ⟨fun label files w f s' w' h => mind_eq_iff (o := .checkpoint label files) hk h, fun calls => ⟨?_, ?_⟩⟩
  · intro hwhole past o w hpast
    exact (mind_played_concat hk (hwhole past ((List.prefix_append _ _).trans hpast))).1 (hwhole _ hpast)
  · intro hopen past
    -- From the first operation on: what was in mind as it should be stays so with every operation that does not tear.
    induction past using List.reverseRecOn with
    | nil => exact fun _ => rfl
    | append_singleton past call ih =>
      intro hpast
      exact (mind_played_concat hk (ih ((List.prefix_append _ _).trans hpast))).2 (hopen past call.1 call.2 hpast)

/-! ### Two checkpoints of one ignored file -/

/-- A provider that has nothing in mind yet. -/
def fresh : GitSnapshots := ofWorkspace "/" "/w" []

/-- A workspace with one file, in a world whose processes write these outputs; the next one cannot be started. -/
def writing (byte : UInt8) (outputs : List String) : World where
  tree := (Tree.empty.put ["w"] .directory).put ["w", ".env"] (.file ⟨#[byte]⟩)
  processes := (outputs.map fun output => { ending := .exit 0 output "" }) ++ [{ ending := .refused .noEntry }]

/-- A checkpoint that is done. -/
def doneCheckpoint : Operation × World := (.checkpoint "a" [".env"], writing 120 ["me", "", "", "c1", "c1\n", ".env\n"])

/-- A checkpoint that fails before it is told the current commit a second time. -/
def failedCheckpoint : Operation × World := (.checkpoint "b" [".env"], writing 121 ["", "", "c2"])

/-- What the first checkpoint left in mind stays when the second one fails early. -/
theorem mind_kept_iff_early : Known fresh ∧
    (turn (played fresh [doneCheckpoint]).1 failedCheckpoint.1 failedCheckpoint.2).result.toOption = none ∧
    ∀ past, past <+: [doneCheckpoint, failedCheckpoint] → (played fresh past).1.mind = (played fresh past).2 := by
  have hk : Known fresh := fun _ ho => absurd ho nofun
  have hdone : (turn fresh doneCheckpoint.1 doneCheckpoint.2).result.toOption = some () := by decide +kernel
  have hfailed : (turn (played fresh [doneCheckpoint]).1 failedCheckpoint.1 failedCheckpoint.2).result.toOption = none ∧
      (turn (played fresh [doneCheckpoint]).1 failedCheckpoint.1 failedCheckpoint.2).heads = [some "c2"] := by
    decide +kernel
  refine ⟨hk, hfailed.1, ((mind_kept_iff hk).2 _).2 fun past o w hpast htears => ?_⟩
  rcases past with _ | ⟨call, _ | ⟨call', past⟩⟩
  · have hcall : (o, w) = doneCheckpoint := (List.cons_prefix_cons.1 hpast).1
    obtain ⟨rfl, rfl⟩ : o = doneCheckpoint.1 ∧ w = doneCheckpoint.2 := Prod.mk.inj hcall
    exact htears.1 (ok_of_toOption hdone)
  · obtain ⟨rfl, hrest⟩ := List.cons_prefix_cons.1 hpast
    have hcall : (o, w) = failedCheckpoint := (List.cons_prefix_cons.1 hrest).1
    obtain ⟨rfl, rfl⟩ : o = failedCheckpoint.1 ∧ w = failedCheckpoint.2 := Prod.mk.inj hcall
    obtain ⟨-, d, ⟨-, first, hheads⟩, -⟩ := htears
    rw [hfailed.2] at hheads
    exact absurd hheads nofun
  · exact absurd hpast.length_le (by simp)

/-- The commit of a failed checkpoint is in mind with the file of the checkpoint before it: the revert resets the tree to
the former and writes the latter back. -/
theorem reverts_torn :
    let first := runOn (fresh, writing 120 ["me", "", "", "c1", "c1\n", ".env\n"]) (checkpoint "a" [".env"])
    let second := runOn (first.2.1, writing 121 ["", "", "c2", "c2\n"]) (checkpoint "b" [".env"])
    let last := runOn (second.2.1, writing 121 ["", ""]) revert
    first.1.toOption = some () ∧ first.2.1.mind = (some "c1", [(".env", ⟨#[120]⟩)]) ∧
      second.1 = .error (.wrap .snapshot "git is not available" (.system .noEntry "git")) ∧
      second.2.1.mind = (some "c2", [(".env", ⟨#[120]⟩)]) ∧ second.2.1.mind ≠ first.2.1.mind ∧
      last.1.toOption = some () ∧
      (orders ((writing 121 ["", ""]).exchanges last.2.2)).map (·.1) = [resetOrder "c2", cleanOrder []] ∧
      last.2.2.tree.bytes? ["w", ".env"] = some ⟨#[120]⟩ := by
  intro first second last
  have hfirst : first.1.toOption = some () ∧ first.2.1.mind = (some "c1", [(".env", ⟨#[120]⟩)]) := by decide +kernel
  have hsecond : second.1 = .error (.wrap .snapshot "git is not available" (.system .noEntry "git")) ∧
      second.2.1.mind = (some "c2", [(".env", ⟨#[120]⟩)]) := by decide +kernel
  have hlast : last.1.toOption = some () ∧
      (orders ((writing 121 ["", ""]).exchanges last.2.2)).map (·.1) = [resetOrder "c2", cleanOrder []] ∧
      last.2.2.tree.bytes? ["w", ".env"] = some ⟨#[120]⟩ := by decide +kernel
  refine ⟨hfirst.1, hfirst.2, hsecond.1, hsecond.2, ?_, hlast⟩
  rw [hsecond.2, hfirst.2]
  decide

end Ratchet.GitSnapshots
