import Ratchet.Proofs.Backup.Restoring
import Ratchet.Proofs.Run.Excluded

/-!
Attempts that are undone.

A phase that says that its attempt was reverted or rolled back follows a rollback that came to its end. What this
brings back depends on the provider. Snapshots in memory write the files back that were backed up, or they fail and the
backup is restored in their place. The provider that takes no snapshots has nothing to write back and never fails, so
the backup is not looked at either: the tree stays as the strategy left it, and the phase says the same.
-/

namespace Ratchet

open Act

/-- Whether a phase says that the edits of its attempt were undone. -/
def Phase.Undone (p : Phase) : Prop := p.reverted = true ∨ p.rolledBack = true

/-- The providers that one of no snapshots, or of snapshots in memory, may become. -/
structure Provider.Kin (p p' : Provider) : Prop where
  none : p = .none → p' = .none
  files : ∀ fs, p = .files fs → ∃ fs', p' = .files fs' ∧ fs.Same fs'

namespace Run

section

variable {σ : Type} {fr : Frame σ} {a : Attempt} {x y z : State σ} {phase p q : Phase}

/-! ### The way to a rollback -/

lemma failed_notBegun {f : Fault} (h : notBegun phase f = .ok p) : p.failed = true ∧ (p.Undone → phase.Undone) := by
  obtain ⟨-, rfl⟩ := notBegun_ok h
  exact ⟨rfl, id⟩

/-- A checkpoint undoes nothing. -/
lemma checkpoint_undoes (h : runOn x (checkpoint fr a phase) = (.ok p, y)) (hp : p.Undone) : phase.Undone := by
  obtain ⟨f, -, hr⟩ | ⟨b, z, u, v, -, -, -, ⟨-, hr⟩ | ⟨f, -, hr⟩⟩ := checkpoint_cases h
  · exact (failed_notBegun hr.symm).2 hp
  · obtain rfl := Except.ok.inj hr
    exact hp
  · exact (failed_notBegun hr.symm).2 hp

/-- A strategy and its measurement undo nothing, and the backup stays the one that was made. -/
lemma edit_undoes {m : Except Fault (List Diagnostic)} (h : runOn x (edit fr a phase) = (.ok (p, m), y)) :
    (p.Undone → phase.Undone) ∧ p.backup = phase.backup := by
  obtain ⟨u, w, -, ⟨f, -, -, hr, -⟩ | ⟨p', m', v, he, -, hr, -⟩⟩ := edit_cases h
  · obtain ⟨rfl, -⟩ := Prod.mk.inj (Except.ok.inj hr)
    exact ⟨id, rfl⟩
  · obtain ⟨rfl, -⟩ := Prod.mk.inj (Except.ok.inj hr)
    cases he <;> exact ⟨id, rfl⟩

/-- What an attempt did that says that it was undone: a checkpoint was taken, the tree was edited, and a rollback came to
its end, at once or after the attempt could not be settled. -/
structure Retreated (fr : Frame σ) (a : Attempt) (x y : State σ) (q : Phase) (z u : State σ) (v : σ × World) : Prop where
  taken : runOn x (checkpoint fr a (a.blank x.1.1.current)) = (.ok q, z)
  begun : q.failed = false
  edited : ∃ p m, runOn z (edit fr a q) = (.ok (p, m), u)
  unsettled : v = u.held ∨ ∃ f before after, runOn u.held (fr.guard.settle a.label before after q.backup) = (.error f, v)
  rolledBack : runOn v (fr.guard.rollback q.backup) = (.ok (), y.held)

lemma undo_retreats (h : runOn x (undo fr phase) = (.ok p, y)) :
    runOn x.held (fr.guard.rollback phase.backup) = (.ok (), y.held) ∧ p.backup = phase.backup := by
  obtain ⟨u, v, hv, rfl, hr⟩ := undo_cases h
  rcases u with f | _
  · exact absurd hr nofun
  · obtain rfl := Except.ok.inj hr
    exact ⟨hv, rfl⟩

/-- An attempt that says that it was undone was rolled back. -/
lemma Retreated.of_attempt (h : runOn x (attempt fr a) = (.ok p, y)) (hp : p.Undone) :
    ∃ q z u v, Retreated fr a x y q z u v ∧ p.backup = q.backup := by
  have hblank : ¬ (a.blank x.1.1.current).Undone := by
    rintro (h | h) <;> exact absurd h nofun
  obtain ⟨o, d, hw, hr⟩ := attempt_cases h
  rcases o with f | p'
  · exact absurd hr nofun
  obtain rfl := Except.ok.inj hr
  have hp' : p'.Undone := hp
  obtain ⟨-, hplan⟩ | ⟨-, ht⟩ := work_cases hw
  · obtain ⟨u, w, -, -, ⟨e, -, hr⟩ | ⟨f, -, -, hr⟩ | ⟨f, -, -, hr⟩⟩ := plan_cases hplan
    · obtain rfl := Except.ok.inj hr
      exact absurd hp' hblank
    · obtain rfl := Except.ok.inj hr
      exact absurd hp' hblank
    · exact absurd hr nofun
  · obtain ⟨f, -, hr⟩ | ⟨q, hc, -, hr⟩ | ⟨q, z, q', m, u, hc, hq, he, hm⟩ := trial_cases ht
    · exact absurd hr nofun
    · obtain rfl := Except.ok.inj hr
      exact absurd (checkpoint_undoes hc hp') hblank
    · obtain ⟨hundone, hbackup⟩ := edit_undoes he
      have hnot : ¬ q'.Undone := fun h => hblank (checkpoint_undoes hc (hundone h))
      obtain ⟨ds, rfl, hs⟩ | ⟨f, rfl, -, hu⟩ | ⟨f, -, -, hr, -⟩ := hm
      · obtain ⟨o, v, ho, ⟨rfl, hr, rfl⟩ | ⟨-, hr, -⟩ | ⟨f, rfl, -, hu⟩ | ⟨f, -, -, hr, -⟩⟩ := settle_cases hs
        · obtain rfl := Except.ok.inj hr
          obtain ⟨-, o, ho, hr⟩ | ⟨-, o, -, hr⟩ := guard_settle_cases ho
          · rcases o with f | _
            · exact absurd hr nofun
            · exact ⟨q, z, u, u.held, ⟨hc, hq, ⟨_, _, he⟩, .inl rfl, hbackup ▸ ho⟩, hbackup⟩
          · cases o <;> exact absurd hr nofun
        · obtain rfl := Except.ok.inj hr
          exact absurd hp' hnot
        · obtain ⟨hroll, hb⟩ := undo_retreats hu
          exact ⟨q, z, u, v, ⟨hc, hq, ⟨_, _, he⟩, .inr ⟨f, _, _, hbackup ▸ ho⟩, hbackup ▸ hroll⟩, hb.trans hbackup⟩
        · exact absurd hr nofun
      · obtain ⟨hroll, hb⟩ := undo_retreats hu
        exact ⟨q, z, u, u.held, ⟨hc, hq, ⟨_, _, he⟩, .inl rfl, hbackup ▸ hroll⟩, hb.trans hbackup⟩
      · exact absurd hr nofun

end

/-! ### No snapshots -/

section

variable {fr : Frame Provider} {a : Attempt} {x y z : State Provider} {q q' : Provider × World} {p : Phase}

/-- **Without snapshots nothing is undone.** An attempt of a run that takes none, and that says that it was undone, ends
in the world that its strategy and its measurement left. -/
theorem kept_without_snapshots (hfr : fr.guard.snapshots = Provider.operations) (hx : x.1.2 = .none)
    (h : runOn x (attempt fr a) = (.ok p, y)) (hp : p.Undone) : ∃ q z u, p.backup = q.backup ∧
      runOn x (checkpoint fr a (a.blank x.1.1.current)) = (.ok q, z) ∧
      (∃ q' m, runOn z (edit fr a q) = (.ok (q', m), u)) ∧ y.2 = u.2 := by
  obtain ⟨q, z, u, v, hr, hb⟩ := Retreated.of_attempt h hp
  have hz : z.1.2 = .none := by
    obtain ⟨_, hback, -⟩ | ⟨b, z', o, v', hback, ho, rfl, -⟩ := checkpoint_cases hr.taken
    · exact (moves_backUp hback).trans hx
    · rw [Guard.begin, hfr, State.held, (moves_backUp hback).trans hx] at ho
      obtain ⟨-, rfl⟩ := Prod.mk.inj ho
      rfl
  have hroll : ∀ {o q' b} {w : World}, runOn (Provider.none, w) (fr.guard.rollback b) = (o, q') →
      o = .ok () ∧ q'.2 = w := by
    intro o q' b w ho
    rw [Guard.rollback, hfr] at ho
    obtain ⟨rfl, rfl⟩ := Prod.mk.inj ho
    exact ⟨rfl, rfl⟩
  obtain ⟨q', m, he⟩ := hr.edited
  have hu : u.held = (.none, u.2) := by rw [State.held, moves_edit he, hz]
  obtain rfl | ⟨f, before, after, hs⟩ := hr.unsettled
  · have hy := hr.rolledBack
    rw [hu] at hy
    exact ⟨q, z, u, hb, hr.taken, hr.edited, (hroll hy).2⟩
  · rw [hu] at hs
    obtain ⟨-, o, ho, hf⟩ | ⟨-, o, ho, hf⟩ := guard_settle_cases hs
    · obtain ⟨rfl, -⟩ := hroll ho
      cases hf
    · rw [hfr] at ho
      obtain ⟨rfl, -⟩ := Prod.mk.inj ho
      cases hf

end

/-! ### Snapshots in memory -/

/-- A frame that backs attempts up in an archive and undoes them with a provider of the same workspace. -/
structure Frame.Secured (fr : Frame Provider) (k : Archive) (fs : FileSnapshots) : Prop where
  snapshots : fr.guard.snapshots = Provider.operations
  backups : fr.guard.backups = some k.operations
  root : Path.Clear k.root
  workspace : Path.Clear k.workspace
  same : fs.workspace = k.workspace

/-- A provider that holds the files of a world for an attempt, those of its diagnostics too. -/
structure Snapped (fs : FileSnapshots) (ds : List Diagnostic) (w : World) (fs' : FileSnapshots)
    (held : List (String × ByteArray)) : Prop where
  same : fs.Same fs'
  remembers : fs'.held = some held
  holds : fs'.Holds w held
  named : fs'.named = Snapshots.namedIn w.here fs.workspace fs.excluded (ds.map (·.file))

/-- A file of a backup that the snapshots are to hold as well: it is spelled by the names that lead to it, it is not
excluded, and it does not lie in the archive. -/
structure Ordinary (k : Archive) (excluded : List String) (f : String) : Prop where
  plain : Path.Plain f
  included : Snapshots.isExcluded excluded f = false
  outside : ¬ Path.lexical k.root <+: k.targetOf f

section

variable {fr : Frame Provider} {k : Archive} {fs fs' : FileSnapshots} {held : List (String × ByteArray)} {a : Attempt}
  {ds : List Diagnostic} {x y : State Provider} {p phase : Phase} {w u : World} {b : Backup} {f : String}

/-- The files that an attempt backs up are named by its diagnostics. -/
lemma of_mem_presentFiles {s : Settings} (h : f ∈ presentFiles w s ds) : f ∈ ds.map (·.file) := by
  refine List.foldlRecOn (motive := fun seen => ∀ g ∈ seen, g ∈ ds.map (·.file)) ds _
    (fun _ hg => absurd hg List.not_mem_nil) (fun seen hseen d hd g hg => ?_)
    f (List.mem_reverse.1 (List.mem_filter.1 h).1)
  split at hg
  · exact hseen g hg
  · rcases List.mem_cons.1 hg with rfl | hg
    · exact List.mem_map_of_mem hd
    · exact hseen g hg

lemma Snapped.placeOf (hfr : fr.Secured k fs) (hs : Snapped fs ds w fs' held) (f : String) :
    fs'.placeOf f = k.targetOf f := by
  rw [FileSnapshots.placeOf, hs.same.1, hfr.same, Archive.targetOf]

/-- An attempt begins with a backup of its files and with a snapshot of the world that is left then. -/
lemma checkpoint_secured (hfr : fr.Secured k fs) (hx : x.1.2 = .files fs)
    (h : runOn x (checkpoint fr a phase) = (.ok p, y)) (hp : p.failed = false) :
    ∃ b fs' held, runOn x.2 (k.create (presentFiles x.2 fr.settings a.diagnostics) a.label) = (.ok b, y.2) ∧
      p.backup = some b.name ∧ y.1.2 = .files fs' ∧ Snapped fs a.diagnostics y.2 fs' held := by
  have hfailed : ∀ {p' f}, .ok p = notBegun p' f → False := fun hr => by
    rw [(failed_notBegun hr.symm).1] at hp
    cases hp
  obtain ⟨f, -, hr⟩ | ⟨name, z, o, v, hback, ho, rfl, ⟨rfl, hr⟩ | ⟨f, -, hr⟩⟩ := checkpoint_cases h
  · exact (hfailed hr).elim
  · obtain rfl := Except.ok.inj hr
    obtain ⟨hnone, -⟩ | ⟨bs, o, w, hbs, hcreate, ⟨b, rfl, hname, rfl⟩ | ⟨f, -, hf, -⟩⟩ := backUp_cases hback
    · rw [hfr.backups] at hnone
      cases hnone
    · rw [hfr.backups] at hbs
      obtain rfl := Option.some.inj hbs
      obtain rfl := Except.ok.inj hname
      rw [Guard.begin, hfr.snapshots] at ho
      change runOn (x.1.2, w) (Provider.doing _ _) = _ at ho
      rw [hx, runOn_doing_files] at ho
      rcases hcheck : runOn (fs, w) (FileSnapshots.checkpoint a.label (a.diagnostics.map (·.file))) with ⟨r, fs', w'⟩
      rw [hcheck] at ho
      obtain ⟨rfl, rfl⟩ := Prod.mk.inj ho
      have habs : Path.isAbsolute fs.workspace = true := by
        rw [hfr.same]
        exact hfr.workspace.absolute
      obtain ⟨f, hf, -⟩ | ⟨held, -, hw, hsame, hheld, hholds⟩ := FileSnapshots.checkpoint_cases habs hcheck
      · cases hf
      · obtain rfl : w' = w := hw
        exact ⟨b, fs', held, hcreate, rfl, rfl, hsame, hheld, hholds, (FileSnapshots.checkpoint_named hcheck).2⟩
    · cases hf
  · exact (hfailed hr).elim

/-- A backed-up file that the snapshots are to hold is held with the bytes that it had before the backup. -/
lemma Ordinary.mem_held {s : Settings} {label : String} (hfr : fr.Secured k fs)
    (hcreate : runOn w (k.create (presentFiles w s ds) label) = (.ok b, u)) (hs : Snapped fs ds u fs' held)
    (hf : f ∈ b.files) (ho : Ordinary k fs.excluded f) : ∃ c, w.tree.bytes? (k.targetOf f) = some c ∧ (f, c) ∈ held := by
  obtain ⟨n, hb⟩ := Archive.create_ok hfr.root hfr.workspace hcreate
  rw [hb.said] at hf
  dsimp only at hf
  -- Neither the place of the new backup nor its staging directory is above the file.
  have hbelow : ∀ m, ¬ Path.lexical k.root ++ [m] <+: k.targetOf f := fun m h =>
    ho.outside ((List.prefix_append _ _).trans h)
  obtain ⟨c, hc⟩ := Option.isSome_iff_exists.1 (hb.present f hf (hbelow _))
  have hcu : u.tree.bytes? (k.targetOf f) = some c := by rw [hb.outside _ (hbelow _) (hbelow _), hc]
  obtain ⟨hne, raw, hraw, hclean⟩ := Archive.mem_wanted.1 hf
  have hempty : f.isEmpty = false := by simpa using hne
  have hnamed : f ∈ fs'.named := by
    rw [hs.named, Snapshots.namedIn, hb.seen, hfr.same]
    refine List.mem_filter.2 ⟨hclean ▸ List.mem_map_of_mem (of_mem_presentFiles hraw), ?_⟩
    rw [hb.within f hf, hempty, ho.included]
    rfl
  have hmem : f ∈ fs'.files u := by
    rw [FileSnapshots.files, Snapshots.ascending, List.mem_eraseDups, List.mem_mergeSort]
    exact List.mem_append_right _ hnamed
  refine ⟨c, hc, (hs.holds f c).2 ⟨hmem, ?_⟩⟩
  have hr : Path.Clear fs'.workspace := by
    rw [hs.same.1, hfr.same]
    exact hfr.workspace
  obtain ⟨d, hd, hn, rfl⟩ := ho.plain
  refine (FileSnapshots.stat_of_bytes? hr hd ?_).2
  rw [← (hr.join hd hn).2, ← FileSnapshots.placeOf, hs.placeOf hfr]
  exact hcu

/-- A rollback writes back what is held, or restores the backup, or it fails and nothing is forgotten. -/
lemma rollback_secured (hfr : fr.Secured k fs) {q q' : Provider × World} (hq : q.1 = .files fs')
    (hs : Snapped fs ds w fs' held) {name : String} {r : Except Fault Unit}
    (h : runOn q (fr.guard.rollback (some name)) = (r, q')) :
    ((∃ f, r = .error f) ∧ q'.1 = .files fs') ∨
      (r = .ok () ∧ ∀ f c, (f, c) ∈ held → q'.2.tree.bytes? (k.targetOf f) = some c) ∨
      (r = .ok () ∧ ∃ v b, runOn v (k.restore name) = (.ok b, q'.2)) := by
  obtain ⟨o, v, ho, hcases⟩ := rollback_cases h
  rw [hfr.snapshots, ← Prod.mk.eta (p := q), hq] at ho
  change runOn (Provider.files fs', q.2) (Provider.doing _ _) = _ at ho
  rw [runOn_doing_files] at ho
  rcases hrevert : runOn (fs', q.2) FileSnapshots.revert with ⟨o', fs'', w'⟩
  rw [hrevert] at ho
  obtain ⟨rfl, rfl⟩ := Prod.mk.inj ho
  have hkept : ∀ {f}, o' = .error f → fs'' = fs' := by
    rintro f rfl
    obtain ⟨-, hq, -⟩ | ⟨_, _, -, ⟨_, -, hq, -⟩ | ⟨hr, -⟩⟩ := FileSnapshots.revert_cases hrevert
    · exact (Prod.mk.inj hq).1
    · exact hq
    · exact absurd hr nofun
  obtain ⟨rfl, rfl, rfl⟩ | ⟨f, rfl, -, rfl, rfl⟩ | ⟨f, rfl, -, hfall⟩ := hcases
  · have habs : Path.isAbsolute fs'.workspace = true := by
      rw [hs.same.1, hfr.same]
      exact hfr.workspace.absolute
    refine .inr (.inl ⟨rfl, fun f c hf => ?_⟩)
    rw [← hs.placeOf hfr]
    exact FileSnapshots.revert_held habs hs.remembers hs.holds hrevert f c hf
  · exact .inl ⟨⟨f, rfl⟩, congrArg Provider.files (hkept rfl)⟩
  · obtain ⟨rfl, rfl⟩ | ⟨bs, name', o, w'', hbs, hname, hrestore, rfl, ⟨b, rfl, rfl⟩ | ⟨f', rfl, rfl⟩⟩ :=
      fallBack_cases hfall
    · exact .inl ⟨⟨_, rfl⟩, congrArg Provider.files (hkept rfl)⟩
    · rw [hfr.backups] at hbs
      obtain rfl := Option.some.inj hbs
      obtain rfl := Option.some.inj hname
      exact .inr (.inr ⟨rfl, w', b, hrestore⟩)
    · exact .inl ⟨⟨_, rfl⟩, congrArg Provider.files (hkept rfl)⟩

/-- An attempt that could not be settled has forgotten nothing. -/
lemma settle_secured (hfr : fr.Secured k fs) {q q' : Provider × World} (hq : q.1 = .files fs')
    (hs : Snapped fs ds w fs' held) {label name : String} {before after : Int} {f : Fault}
    (h : runOn q (fr.guard.settle label before after (some name)) = (.error f, q')) : q'.1 = .files fs' := by
  obtain ⟨-, o, ho, hr⟩ | ⟨-, o, ho, hr⟩ := guard_settle_cases h
  · rcases o with g | _
    · obtain ⟨-, hq'⟩ | ⟨hok, -⟩ | ⟨hok, -⟩ := rollback_secured hfr hq hs ho
      · exact hq'
      · cases hok
      · cases hok
    · cases hr
  · rw [hfr.snapshots, ← Prod.mk.eta (p := q), hq] at ho
    change runOn (Provider.files fs', q.2) (Provider.doing _ _) = _ at ho
    rw [runOn_doing_files, FileSnapshots.commit, runOn_keep] at ho
    obtain ⟨rfl, -⟩ := Prod.mk.inj ho
    cases hr

/-- How the files of a backup are back that was made in one world and used in another: ordinary files have the bytes
that they had before it was made, because the snapshots were written back; or the backup was restored, and then all its
files have them, if nothing had touched the archive, digests tell the files apart and no directory stood in their way. -/
inductive Back (k : Archive) (excluded : List String) (b : Backup) (before made after : World) : Prop
  | reverted (h : ∀ f ∈ b.files, Ordinary k excluded f →
      after.tree.bytes? (k.targetOf f) = before.tree.bytes? (k.targetOf f))
  | restored (v : World) (b' : Backup) (hrun : runOn v (k.restore b.name) = (.ok b', after))
      (h : (∀ p, Path.lexical k.root <+: p → v.tree.bytes? p = made.tree.bytes? p) →
        k.Distinguished before.tree b.files → (∀ f ∈ b.files, v.tree.get? (k.targetOf f) ≠ some .directory) →
        k.Restored b.files before.tree v.tree after.tree)

/-- **With snapshots in memory an attempt that says that it was undone has its files back**, from the snapshots or from
the backup that its phase names. -/
theorem back_of_undone (hfr : fr.Secured k fs) (hx : x.1.2 = .files fs) (h : runOn x (attempt fr a) = (.ok p, y))
    (hp : p.Undone) : ∃ b u, runOn x.2 (k.create (presentFiles x.2 fr.settings a.diagnostics) a.label) = (.ok b, u) ∧
      p.backup = some b.name ∧ Back k fs.excluded b x.2 u y.2 := by
  obtain ⟨q, z, u, v, hr, hpq⟩ := Retreated.of_attempt h hp
  obtain ⟨b, fs', held, hcreate, hq, hz, hs⟩ := checkpoint_secured hfr hx hr.taken hr.begun
  refine ⟨b, z.2, hcreate, hpq.trans hq, ?_⟩
  obtain ⟨q', m, he⟩ := hr.edited
  have hu : u.held.1 = .files fs' := (moves_edit he).trans hz
  have hv : v.1 = .files fs' := by
    obtain rfl | ⟨f, before, after, hset⟩ := hr.unsettled
    · exact hu
    · rw [hq] at hset
      exact settle_secured hfr hu hs hset
  have hroll := hr.rolledBack
  rw [hq] at hroll
  obtain ⟨⟨f, hf⟩, -⟩ | ⟨-, hback⟩ | ⟨-, w, b', hrestore⟩ := rollback_secured hfr hv hs hroll
  · exact absurd hf nofun
  · refine .reverted fun f hf ho => ?_
    obtain ⟨c, hc, hheld⟩ := ho.mem_held hfr hcreate hs hf
    rw [hc]
    exact hback f c hheld
  · exact .restored w b' hrestore fun hstore hdigest hfree =>
      Archive.restored_of_free hfr.root hfr.workspace hcreate hdigest hstore hrestore hfree

end

/-! ### Whole runs -/

section

variable {s : Settings} {crew : Crew Provider} {w : World} {fr : Frame Provider} {a : Attempt} {x y : State Provider}
  {p : Phase}

/-- A provider of no snapshots stays one, and so does one of snapshots in memory. -/
lemma moves_operations : Provider.operations.Moves Provider.Kin := by
  have hdoing : ∀ {onFiles : Keeping FileSnapshots Unit} {onGit : Keeping GitSnapshots Unit}
      (_ : ∀ {fs w r q}, runOn (fs, w) onFiles = (r, q) → fs.Same q.1) {q q' : Provider × World} {r : Except Fault Unit},
      runOn q (Provider.doing onFiles onGit) = (r, q') → q.1.Kin q'.1 := by
    rintro onFiles onGit hfiles ⟨p, w⟩ q' r h
    rcases p with _ | fs | git
    · obtain ⟨-, rfl⟩ := Prod.mk.inj h
      exact ⟨fun _ => rfl, nofun⟩
    · rw [runOn_doing_files] at h
      obtain ⟨-, rfl⟩ := Prod.mk.inj h
      refine ⟨nofun, fun fs' hfs => ⟨_, rfl, ?_⟩⟩
      obtain rfl := Provider.files.inj hfs
      exact hfiles rfl
    · exact ⟨nofun, nofun⟩
  refine ⟨fun p => ⟨id, fun fs h => ⟨fs, h, .refl fs⟩⟩, fun h h' => ⟨fun hp => h'.none (h.none hp), fun fs hp => ?_⟩,
    hdoing fun h => (FileSnapshots.checkpoint_named h).1, hdoing fun h => ?_, hdoing fun h => ?_⟩
  · obtain ⟨fs', hp', hs⟩ := h.files fs hp
    obtain ⟨fs'', hp'', hs'⟩ := h'.files fs' hp'
    exact ⟨fs'', hp'', hs.trans hs'⟩
  · rw [FileSnapshots.commit, runOn_keep] at h
    obtain ⟨-, rfl⟩ := Prod.mk.inj h
    exact ⟨rfl, rfl⟩
  · obtain ⟨-, rfl, -⟩ | ⟨_, _, -, ⟨_, -, hq, -⟩ | ⟨-, hq, -⟩⟩ := FileSnapshots.revert_cases h
    · exact .refl _
    · rw [hq]
      exact .refl _
    · rw [hq]
      exact ⟨rfl, rfl⟩

/-- Every attempt of a run has the guard that the crew asks for, and a provider like the one that was opened. -/
lemma Attempted.kin (hs : crew.snapshots = Provider.operations) (ha : Attempted s crew w fr a x) :
    ∃ held z, runOn (started (opening w)) (prepare s crew) = (.ok (some (fr, held)), z) ∧ fr.settings = s ∧
      fr.guard = ⟨crew.snapshots, s.maxIncrease, crew.backups⟩ ∧ held.Kin (x.paused s).1.2 := by
  obtain ⟨held, z, hp, hm⟩ := ha
  obtain ⟨measure, z', w', -, hc, -⟩ := prepare_ok hp
  obtain ⟨hsettings, -, hguard, -⟩ := complete_ok hc
  have hmoves : fr.guard.snapshots.Moves Provider.Kin := by
    rw [hguard, hs]
    exact moves_operations
  have hkept : Kept fr fun y => held.Kin y.1.2 :=
    ⟨fun hy _ hr => hmoves.trans hy (moves_round hmoves hr), fun _ hy => hy, fun _ hy => hy⟩
  rcases hr : runOn ((z.note (scheduled s)).inner held) (remedyAll fr (scheduled s z.1.1).schedule) with ⟨r, t⟩
  have hx := ((course_remedyAll hkept _ (hmoves.refl held) hr).start _ hm).1
  refine ⟨held, z, hp, hsettings, hguard, ?_⟩
  unfold State.paused
  split <;> exact hx

/-- A crew that backs attempts up and takes snapshots in memory as settings ask. -/
structure Secured (s : Settings) (crew : Crew Provider) (w : World) : Prop where
  opens : OpensFiles s crew w
  snapshots : crew.snapshots = Provider.operations
  backups : crew.backups = some (store s w.here).operations

/-- **With backups and snapshots in memory, what says that it was undone was undone.** Whatever the strategies and the
toolchain do, every attempt of a run that is entered as reverted or rolled back has made the backup that its phase names,
and its files are back, from the snapshots or from that backup. -/
theorem run_back (s : Settings) (crew : Crew Provider) (w : World) (hc : Secured s crew w) (fr : Frame Provider)
    (a : Attempt) (x y : State Provider) (p : Phase) (ha : Attempted s crew w fr a x)
    (h : runOn (x.paused s) (attempt fr a) = (.ok p, y)) (hp : p.Undone) :
    ∃ b u, runOn (x.paused s).2
        ((store s w.here).create (presentFiles (x.paused s).2 s a.diagnostics) a.label) = (.ok b, u) ∧
      p.backup = some b.name ∧
      Back (store s w.here) (fileSnapshots s w.here).excluded b (x.paused s).2 u y.2 := by
  obtain ⟨held, z, hprepare, hsettings, hguard, hkin⟩ := ha.kin hc.snapshots
  obtain rfl := hc.opens fr held z hprepare
  obtain ⟨fs, hfs, hsame⟩ := hkin.files _ rfl
  obtain ⟨hroot, hws⟩ := Archive.clear_at w (s.backupRoot w.here) s.projectPath
  have hfr : fr.Secured (store s w.here) fs := by
    refine ⟨by rw [hguard, hc.snapshots], by rw [hguard, hc.backups], hroot, hws, hsame.1⟩
  obtain ⟨b, u, hcreate, hb, hback⟩ := back_of_undone hfr hfs h hp
  rw [hsettings] at hcreate
  rw [hsame.2] at hback
  exact ⟨b, u, hcreate, hb, hback⟩

/-- Settings that ask for backups and for snapshots in memory get both, whatever the strategies do, if no one leaves the
directory that paths are seen from before the provider is opened. -/
lemma secured_ofSettings (defaults : Defaults) (hd : s.dryRun = false) (hb : s.backupEnabled = true)
    (hp : s.snapshotProvider = "files") {toolchain : Act (Act Observation)} {registry : Act Registry}
    (hstarts : Spares (fun _ => False) toolchain)
    (hmeasures : ∀ {v i v'}, runOn v toolchain = (.ok i, v') → Spares (fun _ => False) i)
    (hloads : Spares (fun _ => False) registry) :
    Secured s { Crew.ofSettings w.here defaults s with toolchain, registry } w where
  opens := opensFiles_of_here hstarts hmeasures hloads fun v p v' hv h => by
    obtain ⟨hfiles, -⟩ := Prod.mk.inj ((runOn_ofSettings_files hd hp).symm.trans h)
    rw [← Except.ok.inj hfiles, hv]
  snapshots := rfl
  backups := by
    change (if (s.backupEnabled && !s.dryRun) = true then _ else _) = _
    rw [hb, hd]
    rfl

/-- **A run that takes no snapshots undoes nothing.** Each of its attempts that is entered as reverted or rolled back
ends in the world that its strategy and its measurement left, whether there is a backup or not. -/
theorem run_kept_without_snapshots (hs : crew.snapshots = Provider.operations)
    (ho : ∀ fr p z, runOn (started (opening w)) (prepare s crew) = (.ok (some (fr, p)), z) → p = .none)
    (ha : Attempted s crew w fr a x) (h : runOn (x.paused s) (attempt fr a) = (.ok p, y)) (hp : p.Undone) :
    ∃ q z u, p.backup = q.backup ∧
      runOn (x.paused s) (checkpoint fr a (a.blank (x.paused s).1.1.current)) = (.ok q, z) ∧
      (∃ q' m, runOn z (edit fr a q) = (.ok (q', m), u)) ∧ y.2 = u.2 := by
  obtain ⟨held, z, hprepare, -, hguard, hkin⟩ := ha.kin hs
  exact kept_without_snapshots (by rw [hguard, hs]) (hkin.none (ho fr held z hprepare)) h hp

end

/-! ### A file that is spoiled -/

/-- A project with one file, which no walk comes to. -/
def yard : World where
  tree := ((Tree.empty.put ["p"] .directory).put ["p", "bin"] .directory).put ["p", "bin", "a"] (.file ⟨#[120]⟩)

/-- What a toolchain reports of the file: one diagnostic, and two when it was spoiled. -/
def complaints (t : Tree) : String :=
  if t.bytes? ["p", "bin", "a"] == some ⟨#[120]⟩ then "bin/a(1,1): error TS2304: x"
  else "bin/a(1,1): error TS2304: y\nbin/a(2,1): error TS2304: y"

/-- Settings with a snapshot provider. -/
def under (provider : String) : Settings :=
  { projectPath := "/p", snapshotProvider := provider, backupDir := "/b" }

/-- The crew of settings with that toolchain and a strategy that spoils the file. -/
def spoiling (s : Settings) : Crew Provider :=
  { Crew.ofSettings yard.here {} s with
    toolchain := pure (Act.look fun w => { code := 1, output := complaints w.tree })
    registry := pure ⟨[("import-issues", ⟨.custom, fun _ => do
      Act.writeText "/p/bin/a" "y"
      return .edits {}⟩)]⟩ }

lemma secured_spoiling : Secured (under "files") (spoiling (under "files")) yard := by
  refine secured_ofSettings {} rfl rfl rfl (.pure _) (fun h => ?_) (.pure _)
  obtain rfl := Except.ok.inj (Prod.mk.inj h).1
  exact .look _

/-! ### The backup of the file -/

/-- The store of the yard's backups, which is the same under every provider. -/
def cellar : Archive := store (under "none") yard.here

lemma root_cellar : Path.lexical cellar.root = ["b"] := by decide

lemma workspace_cellar : Path.lexical cellar.workspace = ["p"] := by decide

/-- The tree of the yard when the store is ready. -/
def opened : Tree := yard.tree.put ["b"] .directory

lemma bare_opened : cellar.Bare opened := by
  refine ⟨by decide, fun n r => ?_⟩
  have hnone : yard.tree.get? ["b"] = none := by decide
  have hput : ∀ q, opened.get? q = if q = ["b"] then some .directory else yard.tree.get? q :=
    Tree.get?_put_child (p := []) (n := "b") (by decide) (Tree.get?_nil _) hnone
  rw [Archive.placeOf, root_cellar, List.append_assoc, hput, if_neg (by simp)]
  exact Tree.get?_below_none hnone (List.prefix_append _ _)

/-- The tree with the file in a staging directory. -/
def boxed (name : String) : Tree :=
  ((cellar.prepared name opened).put (cellar.stagingPlace name ++ [Archive.filesName] ++ ["bin"]) .directory).put
    (cellar.stagingPlace name ++ [Archive.filesName] ++ ["bin"] ++ ["a"]) (.file ⟨#[120]⟩)

lemma routed_cellar (name : String) : cellar.Routed name "bin/a" ["p", "bin", "a"]
    (cellar.stagingPlace name ++ [Archive.filesName] ++ ["bin"]) "a" := by
  have hcomponents : Path.components "bin/a" = ["bin", "a"] := by decide
  refine ⟨by decide, ?_, ?_, ?_, List.prefix_append _ _⟩
  · rw [hcomponents, workspace_cellar]
    rfl
  · rw [workspace_cellar]
    exact List.prefix_append ["p"] ["bin", "a"]
  · rw [hcomponents]
    simp [Path.follow]

/-- The first backup of the file is made, and what comes of it is known. -/
lemma create_cellar {w : World} (hh : w.here = yard.here) (hnow : w.now = yard.now) (hdraws : w.draws = yard.draws)
    (htree : w.tree.entries = opened.entries) (label : String) : runOn w (cellar.create ["bin/a"] label) =
      (.ok (cellar.sole w [] label "bin/a" ⟨#[120]⟩),
        { w with tree := cellar.sealed (cellar.sole w [] label "bin/a" ⟨#[120]⟩)
                   (boxed (Archive.nameOf w.now (w.draws + 1))),
                 draws := w.draws + 1 }) := by
  obtain ⟨ha, hws⟩ : Path.Clear cellar.root ∧ Path.Clear cellar.workspace := Archive.clear_at yard _ _
  have hbare : cellar.Bare w.tree := Tree.eq_of_entries htree ▸ bare_opened
  have hvacant : cellar.Vacant (Archive.nameOf w.now (w.draws + 1)) w.tree := hbare.vacant (by rw [hnow, hdraws]; decide)
  have hwanted : cellar.wanted w.here ["bin/a"] = ["bin/a"] := by
    rw [hh]
    decide
  have hfile : w.tree.get? ["p", "bin", "a"] = some (.file ⟨#[120]⟩) := by
    rw [Tree.eq_of_entries htree]
    decide
  have hcreate := (routed_cellar _).create (by decide) ha hws (by decide) hbare.holds (by decide) hwanted
    (Archive.ensure_there ha hbare.root) hvacant (hvacant.lodged_below (by decide)) hfile label
  rwa [Tree.eq_of_entries htree] at hcreate

/-- The store that knows its first backup, so that a run need not put it together again. -/
def recalling : Backups :=
  { cellar.operations with
    create := fun files label => do
      let w ← get
      if w.here = yard.here ∧ w.now = yard.now ∧ w.draws = yard.draws ∧ w.tree.entries = opened.entries ∧
          files = ["bin/a"] then
        let b := cellar.sole w [] label "bin/a" ⟨#[120]⟩
        modify fun w => { w with tree := cellar.sealed b (boxed b.name), draws := w.draws + 1 }
        return b
      else cellar.create files label }

lemma create_recalling (w : World) (files : List String) (label : String) :
    runOn w (recalling.create files label) = runOn w (cellar.create files label) := by
  unfold recalling
  dsimp only
  rw [runOn_bind, runOn_get]
  dsimp only
  rw [runOn_ite]
  split
  · rename_i h
    obtain ⟨hh, hnow, hdraws, htree, rfl⟩ := h
    rw [create_cellar hh hnow hdraws htree]
    rfl
  · rfl

lemma recalling_eq : recalling = cellar.operations := by
  have hcreate : recalling.create = cellar.create :=
    funext fun files => funext fun label => funext fun w => create_recalling w files label
  change Backups.mk _ recalling.create _ = Backups.mk _ _ _
  rw [hcreate]
  rfl

/-- The crew, with the store that knows its first backup. -/
lemma spoiling_eq (provider : String) :
    spoiling (under provider) = { spoiling (under provider) with backups := some recalling } := by
  rw [recalling_eq]
  rfl

/-! ### What comes of the attempt -/

/-- What comes of the first attempt of a run. -/
def firstPhase (s : Settings) (crew : Crew Provider) (w : World) : Option Phase :=
  match runOn (started (opening w)) (prepare s crew) with
  | (.ok (some (fr, held)), z) =>
    match runMade s fr held z with
    | m :: _ => (runOn (m.2.paused s) (attempt fr m.1)).1.toOption
    | [] => none
  | _ => none

lemma exists_firstPhase {s : Settings} {crew : Crew Provider} {w : World} {p : Phase}
    (h : firstPhase s crew w = some p) : ∃ fr a x y, Attempted s crew w fr a x ∧
      runOn (x.paused s) (attempt fr a) = (.ok p, y) := by
  unfold firstPhase at h
  split at h
  · rename_i fr held z hp
    split at h
    · rename_i m ms hm
      obtain ⟨y, hy⟩ := of_toOption h
      exact ⟨fr, m.1, m.2, y, ⟨held, z, hp, hm ▸ List.mem_cons_self⟩, hy⟩
    · exact absurd h nofun
  · exact absurd h nofun

/-- The file is back when snapshots in memory were written back. -/
theorem run_back_spoiled : ∃ fr a x p y b u, Secured (under "files") (spoiling (under "files")) yard ∧
    Attempted (under "files") (spoiling (under "files")) yard fr a x ∧
    runOn (x.paused (under "files")) (attempt fr a) = (.ok p, y) ∧ p.reverted = true ∧ p.backup = some b.name ∧
    Back (store (under "files") "/") (fileSnapshots (under "files") "/").excluded b (x.paused (under "files")).2 u y.2 := by
  have hfirst : (firstPhase (under "files") (spoiling (under "files")) yard).map (·.reverted) = some true := by
    rw [spoiling_eq]
    decide +kernel
  obtain ⟨p, hp, hr⟩ := Option.map_eq_some_iff.1 hfirst
  obtain ⟨fr, a, x, y, ha, h⟩ := exists_firstPhase hp
  obtain ⟨b, u, -, hb, hback⟩ := run_back _ _ _ secured_spoiling fr a x y p ha h (.inl hr)
  exact ⟨fr, a, x, p, y, b, u, secured_spoiling, ha, h, hr, hb, hback⟩

/-- **The file is not back without snapshots**, although the attempt is entered as reverted and its backup has the
bytes. -/
theorem not_back_without_snapshots : ∃ r y,
    runOn (opening yard) (run (under "none") (spoiling (under "none"))) = (.ok r, y) ∧
    r.phases.map (fun p => (p.reverted, p.backup)) = [(true, some "backup-20240101T000000000000Z-00000001")] ∧
    yard.tree.bytes? ["p", "bin", "a"] = some ⟨#[120]⟩ ∧ y.2.tree.bytes? ["p", "bin", "a"] = some ⟨#[121]⟩ ∧
    y.2.tree.bytes? ["b", "backup-20240101T000000000000Z-00000001", "files", "bin", "a"] = some ⟨#[120]⟩ := by
  have hrun : ((fun q => (q.1.toOption.map fun r => r.phases.map fun p => (p.reverted, p.backup),
      q.2.2.tree.bytes? ["p", "bin", "a"],
      q.2.2.tree.bytes? ["b", "backup-20240101T000000000000Z-00000001", "files", "bin", "a"]))
        (runOn (opening yard) (run (under "none") (spoiling (under "none"))))) =
      (some [(true, some "backup-20240101T000000000000Z-00000001")], some ⟨#[121]⟩, some ⟨#[120]⟩) := by
    rw [spoiling_eq]
    decide +kernel
  rcases hr : runOn (opening yard) (run (under "none") (spoiling (under "none"))) with ⟨f | r, y⟩
  · rw [hr] at hrun
    cases (Prod.mk.inj hrun).1
  · rw [hr] at hrun
    obtain ⟨hphases, hrest⟩ := Prod.mk.inj hrun
    obtain ⟨hfile, hcopy⟩ := Prod.mk.inj hrest
    exact ⟨r, y, rfl, Option.some.inj hphases, by decide, hfile, hcopy⟩

end Run

end Ratchet
