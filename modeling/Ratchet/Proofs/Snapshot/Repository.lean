import Ratchet.Proofs.Processes
import Ratchet.Snapshot.Git

/-!
What git is asked to do.

Every operation on a repository runs git a few times, and stops at the first that fails. A checkpoint and a commit give
mild orders: they look, they stage what is not excluded, and they commit. A revert resets the tree to the commit in mind
and then cleans it. The commit in mind changes at one place of each operation: a checkpoint keeps the second answer to the
question for the current commit, and a commit or a revert keeps none once it is done.
-/

namespace Ratchet.GitSnapshots

open Act

/-! ### Orders -/

/-- Words without the options in front of them. -/
def withoutOptions : List String → List String
  | "-c" :: _ :: ws => withoutOptions ws
  | ws => ws

/-- What git is asked to do, if it is git that is asked. -/
def order : List String → List String
  | "git" :: ws => withoutOptions ws
  | _ => []

/-- The question whether the repository has a committer. -/
def committerQuestion : List String := ["config", "user.email"]

/-- What git was asked to do, each time with how it ended; the question for a committer is left out. -/
def orders (xs : List Exchange) : List Exchange :=
  (xs.map fun x => (order x.1, x.2)).filter (·.1 != committerQuestion)

/-- The order to say which commit is the current one. -/
def headOrder : List String := ["rev-parse", "--verify", "HEAD"]

/-- The order to stage all that is not excluded. -/
def addOrder (excluded : List String) : List String := ["add", "-A", "--", "."] ++ excluded.map (":(exclude)" ++ ·)

/-- The order to reset the tree to a commit. -/
def resetOrder (c : String) : List String := ["reset", "--hard", c]

/-- The order to remove what is not tracked and not excluded. -/
def cleanOrder (excluded : List String) : List String := ["clean", "-fd"] ++ excluded.flatMap fun p => ["-e", p]

/-- The current commit that git tells, or that there is none; nothing if it does not answer. -/
def told? : ProcessEnd → Option (Option String)
  | .exit code output _ => some (if code == 0 then some (trimmed output) else none)
  | .timeout | .refused _ => none

/-- What git answers when it is asked which commit is the current one, each time that it is. -/
def heads (xs : List Exchange) : List (Option String) :=
  (orders xs).filterMap fun x => if x.1 = headOrder then told? x.2 else none

@[simp] lemma orders_append (xs ys : List Exchange) : orders (xs ++ ys) = orders xs ++ orders ys := by
  rw [orders, List.map_append, List.filter_append]
  rfl

lemma order_git {args : List String} (h : args.head? ≠ some "-c") : order ("git" :: args) = args := by
  rw [order]
  unfold withoutOptions
  split
  · exact absurd rfl h
  · rfl

/-- What was asked when git was told an order, or was not. -/
lemma orders_told {args options : List String} {e : ProcessEnd} (xs : List Exchange)
    (hoptions : options = [] ∨ options = stranger) (hc : args.head? ≠ some "-c") (hq : args ≠ committerQuestion) :
    orders (xs ++ [("git" :: options ++ args, e)]) = orders xs ++ [(args, e)] := by
  have hargs : order ("git" :: (options ++ args)) = args := by
    rcases hoptions with rfl | rfl
    · exact order_git hc
    · exact order_git hc
  rw [orders_append]
  refine congrArg (orders xs ++ ·) ?_
  simp [orders, hargs, hq]

/-- The question for the current commit adds its answer, if there is one. -/
lemma heads_asked {xs ys : List Exchange} {e : Option ProcessEnd}
    (h : orders ys = orders xs ++ (Option.map (headOrder, ·) e).toList) :
    heads ys = heads xs ++ (e.bind told?).toList := by
  rcases e with _ | e
  · simp [heads, h]
  · rcases ht : told? e with _ | c
    · simp [heads, h, ht]
    · simp [heads, h, ht]

/-- Any other order adds none. -/
lemma heads_told {xs ys : List Exchange} {args : List String} {e : Option ProcessEnd}
    (h : orders ys = orders xs ++ (Option.map (args, ·) e).toList) (hne : args ≠ headOrder) : heads ys = heads xs := by
  rcases e with _ | e
  · simp [heads, h]
  · simp [heads, h, hne]

/-! ### What single steps ask -/

variable {s₀ s s' : GitSnapshots} {w : World} {excluded args : List String} {c : Option String} {xs ys : List Exchange}
  {hs : List (Option String)}

/-- What is known of the committer is that options are needed or not. -/
def Known (s : GitSnapshots) : Prop := ∀ options ∈ s.identity, options = [] ∨ options = stranger

/-- The state after some orders: the committer may have become known, and all else is as it was. -/
structure Kin (s s' : GitSnapshots) : Prop where
  known : Known s'
  excluded : s'.excluded = s.excluded
  commit : s'.commit = s.commit

lemma Kin.refl (h : Known s) : Kin s s := ⟨h, rfl, rfl⟩

/-- The options that supply a committer are found out without an order. -/
lemma comes_identityOptions (hk : Kin s₀ s) : Comes s xs identityOptions fun r s' ys =>
    Kin s₀ s' ∧ orders ys = orders xs ∧ ∀ options, r = .ok options → options = [] ∨ options = stranger := by
  refine .kept_bind ?_
  rcases hi : s.identity with _ | options
  · have hasked : ∀ e, orders (xs ++ [(["git", "config", "user.email"], e)]) = orders xs := fun e => by
      rw [orders_append]
      exact List.append_nil _
    have hfound : ∀ e options, options = [] ∨ options = stranger →
        Comes s (xs ++ [(["git", "config", "user.email"], e)]) (do
          Act.keep fun s => { s with identity := some options }
          return options) fun r s' ys =>
            Kin s₀ s' ∧ orders ys = orders xs ∧ ∀ options, r = .ok options → options = [] ∨ options = stranger := by
      intro e options h
      refine .keep_bind (.pure ⟨⟨fun o ho => ?_, hk.excluded, hk.commit⟩, hasked e, fun o ho => ?_⟩)
      · rwa [← Option.mem_some.1 ho]
      · rwa [← Except.ok.inj ho]
    refine .process_bind fun e => ?_
    rcases e with ⟨code, output, errors⟩ | _ | cause
    · refine .pure_bind (hfound _ _ ?_)
      split
      · exact .inl rfl
      · exact .inr rfl
    · exact .throw_bind ⟨hk, hasked _, nofun⟩
    · exact .pure_bind (hfound _ _ (.inr rfl))
  · exact .pure ⟨hk, rfl, fun o ho => Except.ok.inj ho ▸ hk.known options hi⟩

/-- How git answers an order: with its exit code and its output, unless it fails where that is checked, is never started,
or is not even told the order. -/
inductive Answered (check : Bool) : Option ProcessEnd → Except Fault (Int × String) → Prop
  | done {code : Int} {output errors : String} (h : check = true → code = 0) :
    Answered check (some (.exit code output errors)) (.ok (code, output))
  | failed {code : Int} {output errors : String} {f : Fault} (h : check = true) :
    Answered check (some (.exit code output errors)) (.error f)
  | lost {e : Option ProcessEnd} {f : Fault} (h : ∀ code output errors, e ≠ some (.exit code output errors)) :
    Answered check e (.error f)

/-- Running git is one order, or none when the question for a committer is the last thing that runs. -/
lemma comes_git (hk : Kin s₀ s) (check : Bool) (hc : args.head? ≠ some "-c") (hq : args ≠ committerQuestion) :
    Comes s xs (git check args) fun r s' ys =>
      Kin s₀ s' ∧ ∃ e, orders ys = orders xs ++ (Option.map (args, ·) e).toList ∧ Answered check e r := by
  refine .bind (comes_identityOptions hk) ?_ ?_
  · rintro options s' ys ⟨hk, hys, hoptions⟩
    refine .kept_bind (.process_bind fun e => ?_)
    have horder := orders_told (e := e) ys (hoptions options rfl) hc hq
    rw [hys] at horder
    rcases e with ⟨code, output, errors⟩ | _ | cause
    · dsimp only
      split
      · rename_i h
        exact .throw ⟨hk, some _, horder, .failed (Bool.and_eq_true_iff.1 h).1⟩
      · rename_i h
        refine .pure ⟨hk, some _, horder, .done fun hcheck => ?_⟩
        simpa [hcheck] using h
    · exact .throw ⟨hk, some _, horder, .lost nofun⟩
    · exact .throw ⟨hk, some _, horder, .lost nofun⟩
  · rintro f s' ys ⟨hk, hys, -⟩
    exact ⟨hk, none, hys.trans (List.append_nil _).symm, .lost nofun⟩

/-- The commands that neither change the tree nor stage anything. -/
def mildCommands : List String := ["diff", "commit", "rev-parse", "check-ignore"]

/-- An order that neither resets nor cleans the tree, and that stages nothing that is excluded. -/
def IsMild (excluded ws : List String) : Prop := ws = addOrder excluded ∨ ∃ name ∈ mildCommands, ws.head? = some name

lemma IsMild.head_ne {name : String} (h : IsMild excluded args) (hn : name ∉ "add" :: mildCommands) :
    args.head? ≠ some name := by
  intro he
  rcases h with rfl | ⟨n, hmem, hn'⟩
  · exact hn (List.mem_cons.2 (.inl (Option.some.inj he).symm))
  · rw [hn'] at he
    exact hn (List.mem_cons_of_mem _ (Option.some.inj he ▸ hmem))

/-- Orders that stage anything leave out what is excluded. -/
lemma IsMild.add {args : List String} (h : IsMild excluded args) (hadd : args.head? = some "add") :
    ∃ options paths, args = options ++ "--" :: paths ∧ ∀ p ∈ excluded, ":(exclude)" ++ p ∈ paths := by
  rcases h with rfl | ⟨name, hname, hhead⟩
  · refine ⟨["add", "-A"], "." :: excluded.map (":(exclude)" ++ ·), rfl, fun p hp => ?_⟩
    exact List.mem_cons_of_mem _ (List.mem_map_of_mem hp)
  · rw [Option.some.inj (hhead.symm.trans hadd)] at hname
    exact absurd hname (by decide)

/-- How far an operation has come that gave mild orders only, and what was answered to the question for the current
commit. -/
structure Gentle (s₀ s : GitSnapshots) (xs : List Exchange) (hs : List (Option String)) : Prop where
  kin : Kin s₀ s
  mild : ∀ x ∈ orders xs, IsMild s₀.excluded x.1
  heads : heads xs = hs

lemma Gentle.refl (h : Known s) : Gentle s s [] [] := ⟨.refl h, fun _ hx => absurd hx List.not_mem_nil, rfl⟩

lemma mild_append {e : Option ProcessEnd} (h : ∀ x ∈ orders xs, IsMild excluded x.1) (hargs : IsMild excluded args)
    (ho : orders ys = orders xs ++ (Option.map (args, ·) e).toList) : ∀ x ∈ orders ys, IsMild excluded x.1 := by
  intro x hx
  rw [ho, List.mem_append] at hx
  rcases hx with hx | hx
  · exact h x hx
  · rcases e with _ | e
    · exact absurd hx List.not_mem_nil
    · rwa [List.mem_singleton.1 hx]

/-- What commit is in mind does not matter. -/
lemma Gentle.remember (h : Gentle s₀ s xs hs) (c : Option String) :
    Gentle { s₀ with commit := c } { s with commit := c } xs hs :=
  ⟨⟨h.kin.known, h.kin.excluded, rfl⟩, h.mild, h.heads⟩

/-- A mild order leaves an operation as gentle as it was, unless it asks for the current commit. -/
lemma Gentle.git {name : String} (h : Gentle s₀ s xs hs) (check : Bool) (hargs : IsMild s₀.excluded args)
    (hhead : args.head? = some name) (hname : name ≠ "rev-parse") :
    Comes s xs (git check args) fun _ s' ys => Gentle s₀ s' ys hs := by
  have hq : args ≠ committerQuestion := by
    rintro rfl
    exact hargs.head_ne (by decide) rfl
  have hne : args ≠ headOrder := by
    rintro rfl
    exact hname (Option.some.inj hhead).symm
  refine (comes_git h.kin check (hargs.head_ne (by decide)) hq).imp ?_
  rintro r s' ys ⟨hk, e, ho, -⟩
  exact ⟨hk, mild_append h.mild hargs ho, by rw [heads_told ho hne, h.heads]⟩

/-- The question for the current commit adds the answer, if there is one. -/
lemma Gentle.head (h : Gentle s₀ s xs hs) :
    Comes s xs head fun r s' ys => Gentle s₀ s' ys (hs ++ r.toOption.toList) := by
  have hmild : IsMild s₀.excluded headOrder := .inr ⟨"rev-parse", by decide, rfl⟩
  refine .bind (comes_git h.kin false (by decide) (by decide)) ?_ ?_
  · rintro ⟨code, output⟩ s' ys ⟨hk, e, ho, hanswer⟩
    refine .pure ⟨hk, mild_append h.mild hmild ho, ?_⟩
    rw [heads_asked ho, h.heads]
    cases hanswer with
    | done _ => rfl
  · rintro f s' ys ⟨hk, e, ho, hanswer⟩
    refine ⟨hk, mild_append h.mild hmild ho, ?_⟩
    rw [heads_asked ho, h.heads]
    cases hanswer with
    | failed h => exact absurd h nofun
    | lost h =>
      rcases e with _ | ⟨code, output, errors⟩ | _ | cause
      · rfl
      · exact absurd rfl (h code output errors)
      · rfl
      · rfl

lemma Gentle.stageAndCommit (h : Gentle s₀ s xs hs) (message : String) :
    Comes s xs (stageAndCommit message) fun _ s' ys => Gentle s₀ s' ys hs := by
  refine .kept_bind (.bind (h.git true (.inl (h.kin.excluded ▸ rfl)) rfl (by decide)) ?_ fun _ _ _ h => h)
  intro _ s₁ ys h
  refine .bind (h.git false (.inr ⟨"diff", by decide, rfl⟩) rfl (by decide)) ?_ fun _ _ _ h => h
  rintro ⟨code, output⟩ s₂ zs h
  dsimp only
  split
  · exact .pure h
  · exact .bind (h.git true (.inr ⟨"commit", by decide, rfl⟩) rfl (by decide)) (fun _ _ _ h => .pure h) fun _ _ _ h => h

lemma idle_readAll (workspace : String) (fs : List String) : Leads World.Idle (readAll workspace fs) := by
  refine .of_looks ?_
  induction fs with
  | nil => exact .pure _
  | cons f fs ih => exact .bind (.readBytes _) fun _ => .bind ih fun _ => .pure _

lemma Gentle.readIgnored (h : Gentle s₀ s xs hs) (files : List String) :
    Comes s xs (readIgnored files) fun _ s' ys => Gentle s₀ s' ys hs := by
  refine .get_bind fun w => ?_
  dsimp only
  split
  · exact .pure h
  · refine .bind (h.git false (.inr ⟨"check-ignore", by decide, rfl⟩) rfl (by decide)) ?_ fun _ _ _ h => h
    rintro ⟨code, output⟩ s₁ ys h
    exact .told (.beside (idle_readAll _ _) fun _ => h)

/-! ### What operations ask -/

/-- The commit that a checkpoint leaves in mind: the second answer to the question for the current one, if there was one. -/
def remembered (hs : List (Option String)) (c : Option String) : Option String :=
  match hs with
  | [_, h] => h
  | _ => c

/-- The state after an operation, and the commit that it has in mind. -/
structure Leaves (s s' : GitSnapshots) (c : Option String) : Prop where
  known : Known s'
  excluded : s'.excluded = s.excluded
  commit : s'.commit = c

lemma Kin.leaves (h : Kin s s') (hc : s.commit = c) : Leaves s s' c := ⟨h.known, h.excluded, h.commit.trans hc⟩

/-- A checkpoint gives mild orders, and it keeps the second answer to the question for the current commit. -/
lemma comes_checkpoint (hk : Known s) (label : String) (files : List String) :
    Comes s [] (checkpoint label files) fun _ s' xs =>
      Leaves s s' (remembered (heads xs) s.commit) ∧ ∀ x ∈ orders xs, IsMild s.excluded x.1 := by
  -- Until the second answer is kept, the commit in mind is the old one, wherever the checkpoint stops.
  have hstop : ∀ {s' xs hs}, Gentle s s' xs hs → hs.length < 2 →
      Leaves s s' (remembered (heads xs) s.commit) ∧ ∀ x ∈ orders xs, IsMild s.excluded x.1 := by
    intro s' xs hs h hlen
    refine ⟨h.kin.leaves ?_, h.mild⟩
    rw [h.heads]
    rcases hs with _ | ⟨_, _ | ⟨_, hs⟩⟩
    · rfl
    · rfl
    · exact absurd hlen (by simp)
  -- What follows the first answer, with or without a commit in between.
  have hrest : ∀ {s₁ xs h}, Gentle s s₁ xs [h] → Comes s₁ xs (do
      let commit ← head
      Act.keep fun s => { s with commit }
      let ignored ← readIgnored files
      Act.keep fun s => { s with ignored }) fun _ s' ys =>
        Leaves s s' (remembered (heads ys) s.commit) ∧ ∀ x ∈ orders ys, IsMild s.excluded x.1 := by
    intro s₁ xs h h₁
    refine .bind h₁.head ?_ fun f s₂ ys h₂ => hstop h₂ (by simp [Except.toOption])
    intro c s₂ ys h₂
    -- The answer is kept before the ignored files are read, and stays when that fails.
    have hdone : ∀ {s₃ zs}, Gentle { s with commit := c } s₃ zs [h, c] →
        Leaves s s₃ (remembered (heads zs) s.commit) ∧ ∀ x ∈ orders zs, IsMild s.excluded x.1 := fun h₃ =>
      ⟨⟨h₃.kin.known, h₃.kin.excluded, h₃.heads ▸ h₃.kin.commit⟩, h₃.mild⟩
    refine .keep_bind (.bind ((h₂.remember c).readIgnored files) ?_ fun f s₃ zs h₃ => hdone h₃)
    intro ignored s₃ zs h₃
    obtain ⟨⟨hknown, hexcluded, hcommit⟩, hmild⟩ := hdone h₃
    exact .keep ⟨⟨hknown, hexcluded, hcommit⟩, hmild⟩
  refine .bind ((Gentle.refl hk).stageAndCommit _) ?_ fun f s₁ xs h₁ => hstop h₁ (by decide)
  intro _ s₁ xs h₁
  refine .bind h₁.head ?_ fun f s₂ ys h₂ => hstop h₂ (by simp [Except.toOption])
  intro c s₂ ys h₂
  split
  · refine .bind (h₂.git true (.inr ⟨"commit", by decide, rfl⟩) rfl (by decide)) ?_ fun f s₃ zs h₃ => hstop h₃ ?_
    · intro _ s₃ zs h₃
      exact hrest h₃
    · simp [Except.toOption]
  · exact hrest h₂

/-- The commit in mind after an operation that forgets it when it is done. -/
def unlessDone (r : Except Fault Unit) (c : Option String) : Option String :=
  match r with
  | .ok () => none
  | .error _ => c

/-- A commit gives mild orders, and forgets the commit in mind when it is done. -/
lemma comes_record (hk : Known s) (label : String) : Comes s [] (record label) fun r s' xs =>
    Leaves s s' (unlessDone r s.commit) ∧ ∀ x ∈ orders xs, IsMild s.excluded x.1 := by
  refine .bind ((Gentle.refl hk).stageAndCommit _) ?_ fun f s₁ xs h => ⟨h.kin.leaves rfl, h.mild⟩
  intro _ s₁ xs h
  exact .keep ⟨⟨h.kin.known, h.kin.excluded, rfl⟩, h.mild⟩

lemma idle_writeBack (workspace : String) (held : List (String × ByteArray)) :
    Leads World.Idle (writeBack workspace held) := by
  induction held with
  | nil => exact .pure _
  | cons x held ih => exact .bind (.idle_writeBytes _ _) fun _ => ih

lemma exclude_infix_cleanOrder {p : String} (hp : p ∈ excluded) : ["-e", p] <:+: cleanOrder excluded := by
  obtain ⟨before, after, rfl⟩ := List.append_of_mem hp
  refine ⟨["clean", "-fd"] ++ before.flatMap fun p => ["-e", p], after.flatMap fun p => ["-e", p], ?_⟩
  simp [cleanOrder]

/-- What a revert asks of git: a reset to a commit, and once that is done, to remove what is not tracked. -/
inductive Undoes (excluded : List String) (c : String) : List Exchange → Prop
  | nothing : Undoes excluded c []
  | reset (e : ProcessEnd) : Undoes excluded c [(resetOrder c, e)]
  | clean (output errors : String) (e : ProcessEnd) :
    Undoes excluded c [(resetOrder c, .exit 0 output errors), (cleanOrder excluded, e)]

lemma Undoes.cases {c : String} {x : Exchange} (h : Undoes excluded c xs) (hx : x ∈ xs) :
    x.1 = resetOrder c ∨ x.1 = cleanOrder excluded := by
  cases h with
  | nothing => exact absurd hx List.not_mem_nil
  | reset e => exact .inl (congrArg Prod.fst (List.mem_singleton.1 hx))
  | clean output errors e => exact (List.mem_pair.1 hx).imp (congrArg Prod.fst) (congrArg Prod.fst)

/-- What comes before a cleaning is a reset that was done. -/
lemma Undoes.clean_cases {c : String} {x : Exchange} {before after : List Exchange} (h : Undoes excluded c xs)
    (hxs : xs = before ++ x :: after) (hhead : x.1.head? = some "clean") :
    x.1 = cleanOrder excluded ∧ ∃ output errors, (resetOrder c, .exit 0 output errors) ∈ before := by
  have hwords : x.1 = cleanOrder excluded :=
    (h.cases (hxs ▸ List.mem_append_right _ List.mem_cons_self)).resolve_left fun h => by simp [h, resetOrder] at hhead
  refine ⟨hwords, ?_⟩
  rcases before with _ | ⟨y, before⟩
  · cases h with
    | nothing => exact absurd hxs nofun
    | _ => simp [← (List.cons.inj hxs).1, resetOrder] at hhead
  · cases h with
    | nothing => exact absurd hxs nofun
    | reset e => exact absurd (List.cons.inj hxs).2 (by simp)
    | clean output errors e => exact ⟨output, errors, List.mem_cons.2 (.inl (List.cons.inj hxs).1)⟩

/-- A revert with nothing in mind fails before it runs anything. -/
lemma runOn_revert_nothing (h : s.commit.getD "" = "") :
    runOn (s, w) revert = (.error (.plain .snapshot "No git checkpoint to revert to"), (s, w)) := by
  rw [revert, runOn_bind_ok _ (runOn_kept s), h]
  rfl

/-- A revert resets the tree to the commit in mind, and forgets it when it is done. -/
lemma comes_revert {c : String} (hk : Known s) (hc : s.commit = some c) (hne : c ≠ "") :
    Comes s [] revert fun r s' xs => Leaves s s' (unlessDone r s.commit) ∧ Undoes s.excluded c (orders xs) := by
  have hcommit : s.commit.getD "" = c := by rw [hc]; rfl
  refine .kept_bind ?_
  rw [hcommit]
  dsimp only
  rw [if_neg (by simpa using hne)]
  have hreset : (resetOrder c).head? ≠ some "-c" := fun h => absurd (Option.some.inj h) (by decide)
  have hclean : (cleanOrder s.excluded).head? ≠ some "-c" := fun h => absurd (Option.some.inj h) (by decide)
  refine .bind (comes_git (.refl hk) true hreset fun h => absurd (List.cons.inj h).1 (by decide)) ?_ ?_
  · rintro ⟨code, output⟩ s₁ xs ⟨h₁, e, ho, hanswer⟩
    have horders : ∃ errors, orders xs = [(resetOrder c, .exit 0 output errors)] := by
      cases hanswer with
      | @done _ _ errors h => exact ⟨errors, h rfl ▸ ho⟩
    obtain ⟨errors, horders⟩ := horders
    have hcleans : ∀ {ys} {e : Option ProcessEnd},
        orders ys = orders xs ++ (Option.map (cleanOrder s.excluded, ·) e).toList → Undoes s.excluded c (orders ys) := by
      intro ys e h
      rw [h, horders]
      rcases e with _ | e
      · exact .reset _
      · exact .clean output errors e
    refine .bind (comes_git h₁ true hclean fun h => absurd (List.cons.inj h).1 (by decide)) ?_ fun f s₂ ys h₂ =>
      ⟨h₂.1.leaves rfl, ?_⟩
    · rintro _ s₂ ys ⟨h₂, e, ho', -⟩
      have hundoes := hcleans ho'
      refine .bind (P := fun _ s' zs => Kin s s' ∧ Undoes s.excluded c (orders zs)) ?_ ?_ fun f s₃ zs h =>
        ⟨h.1.leaves rfl, h.2⟩
      · exact .told (.beside (idle_writeBack _ _) fun _ => ⟨h₂, hundoes⟩)
      · rintro _ s₃ zs ⟨h₃, hundoes⟩
        exact .keep ⟨⟨h₃.known, h₃.excluded, rfl⟩, hundoes⟩
    · obtain ⟨-, e, ho', -⟩ := h₂
      exact hcleans ho'
  · rintro f s₁ xs ⟨h₁, e, ho, hanswer⟩
    refine ⟨h₁.leaves rfl, ?_⟩
    rw [ho]
    rcases e with _ | e
    · exact .nothing
    · exact .reset e

end Ratchet.GitSnapshots
