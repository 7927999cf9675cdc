import Ratchet.Proofs.Backup.Spared
import Ratchet.Proofs.Run.Containment
import Ratchet.Proofs.Run.Ledger
import Ratchet.Proofs.Run.Moves
import Ratchet.Proofs.Run.Sparing
import Ratchet.Proofs.Snapshot

/-!
Diagnostics that are current.

A run knows the diagnostics of the last measurement that it kept. They are those of the tree as it stands
whenever an attempt starts: what was kept has just been measured, and what was not kept has been undone.
So the proof follows an attempt through its exits. A checkpoint holds the walked files; until the attempt
is settled they may be anything; a commit comes with a new measurement, and a revert restores them.

What the run writes itself, its backups and its reports, is neither measured nor undone.
-/

namespace Ratchet

open Act

variable {σ α : Type}

/-- The paths that a run writes to itself. -/
def Settings.ownPaths (s : Settings) (here : String) : List String :=
  [s.backupRoot here, s.reportFile here, s.analysisFile here]

/-- A computation does what another one does, or it fails and does nothing. -/
def Act.Refines (a b : Doing σ α) : Prop := ∀ x, runOn x a = runOn x b ∨ ∃ f, runOn x a = (.error f, x)

namespace Run

/-- The snapshots in memory that a run takes of its project. -/
def fileSnapshots (s : Settings) (here : String) : FileSnapshots :=
  .ofWorkspace here s.projectPath (s.ownPaths here)

/-- The places that the snapshots of a run cover, without those that the run writes to itself. -/
def Walked (s : Settings) (here : String) (p : Place) : Prop :=
  (∃ q, (fileSnapshots s here).Covers q ∧ p = Path.lexical (fileSnapshots s here).workspace ++ q) ∧
    ∀ o ∈ s.ownPaths here, ¬ Path.lexical o <+: p

/-- The store of a run's backups. -/
def store (s : Settings) (here : String) : Archive := .at here (s.backupRoot here) s.projectPath

/-- A crew whose toolchain reports on the walked files and does not write them. Strategies may write
anything and fail in any way; backups and snapshots are those of the settings, and may fail at any time. -/
structure Faithful (s : Settings) (here : String) (reports : Tree → String) (crew : Crew Provider) : Prop where
  depends : ∀ t t', (∀ p, Walked s here p → t'.bytes? p = t.bytes? p) → reports t' = reports t
  starts : Spares (fun _ => False) crew.toolchain
  measures : ∀ {v i v'}, runOn v crew.toolchain = (.ok i, v') →
    Spares (Walked s here) i ∧ ∀ u o u', runOn u i = (.ok o, u') → o.output = reports u.tree
  loads : Spares (Walked s here) crew.registry
  strategies : ∀ {v r v'}, runOn v crew.registry = (.ok r, v') → ∀ e ∈ r.entries, ∀ a,
    Spares (fun _ => False) (e.2.strategy a)
  opens : Spares (Walked s here) crew.provider
  checkpoint : ∀ label files,
    Refines (crew.snapshots.checkpoint label files) (Provider.operations.checkpoint label files)
  commit : ∀ label, Refines (crew.snapshots.commit label) (Provider.operations.commit label)
  revert : Refines crew.snapshots.revert Provider.operations.revert
  ensure : ∀ {bs}, crew.backups = some bs →
    Refines bs.ensure (store s here).ensure
  create : ∀ {bs}, crew.backups = some bs → ∀ files description, Refines (bs.create files description)
    ((store s here).create files description)

/-- What a run knows is what the toolchain reports on a tree. -/
structure Current (s : Settings) (here : String) (reports : Tree → String) (p : Progress) (t : Tree) : Prop where
  parsed : Diagnostic.ofOutput here s.projectPath (reports t) = .ok p.diagnostics
  counted : p.current = p.diagnostics.length

/-- What a snapshot provider and the world are between two attempts: the provider takes snapshots in memory. -/
def Ready (s : Settings) (here : String) (q : (Provider × List Call) × World) : Prop :=
  q.2.here = here ∧ ∃ fs, q.1.1 = .files fs ∧ (fileSnapshots s here).Same fs

/-- What they are during an attempt: the provider holds the walked files of a world. -/
def Armed (s : Settings) (here : String) (w : World) (q : (Provider × List Call) × World) : Prop :=
  q.2.here = here ∧ ∃ fs held, q.1.1 = .files fs ∧ (fileSnapshots s here).Same fs ∧ fs.held = some held ∧
    fs.Holds w held

/-- Between two attempts a run knows the diagnostics of the tree. -/
def Fresh (s : Settings) (here : String) (reports : Tree → String) (x : State (Provider × List Call)) : Prop :=
  Ready s here x.held ∧ Current s here reports x.1.1 x.2.tree

variable {s : Settings} {here : String} {reports : Tree → String} {crew : Crew Provider}
  {q q' : (Provider × List Call) × World} {w w' : World}

lemma Armed.ready (h : Armed s here w q) : Ready s here q := by
  obtain ⟨hh, fs, held, hf, hs, -, -⟩ := h
  exact ⟨hh, fs, hf, hs⟩

/-- What is known stays current as long as the walked files are as they were. -/
lemma Current.agree {p : Progress} (hc : Faithful s here reports crew) (h : Current s here reports p w.tree)
    (ha : World.Agree (Walked s here) w w') : Current s here reports p w'.tree :=
  ⟨by rw [hc.depends w.tree w'.tree ha.files]; exact h.parsed, h.counted⟩

lemma Current.congr {p p' : Progress} {t : Tree} (h : Current s here reports p t)
    (hd : p'.diagnostics = p.diagnostics) (hn : p'.current = p.current) : Current s here reports p' t :=
  ⟨by rw [hd]; exact h.parsed, by rw [hn, hd]; exact h.counted⟩

lemma Current.steady {x y : State σ} {t : Tree} (h : Current s here reports x.1.1 t) (hs : Steady x y) :
    Current s here reports y.1.1 t := h.congr hs.diagnostics hs.current

/-! ### Snapshots -/

lemma runOn_doing_files (onFiles : Keeping FileSnapshots Unit) (onGit : Keeping GitSnapshots Unit)
    (fs : FileSnapshots) (w : World) :
    runOn (Provider.files fs, w) (Provider.doing onFiles onGit) =
      ((runOn (fs, w) onFiles).1, (.files (runOn (fs, w) onFiles).2.1, (runOn (fs, w) onFiles).2.2)) := by
  rw [Provider.doing, runOn_bind, runOn_kept]
  rfl

lemma runOn_watch {c : Bool → Call} {b : Keeping σ Unit} {x x' : (σ × List Call) × World} {r : Except Fault Unit}
    (h : runOn x (Snapshots.watch c b) = (r, x')) :
    runOn (x.1.1, x.2) b = (r, (x'.1.1, x'.2)) ∧ x'.1.2 = x.1.2 ++ [c r.isOk] := by
  obtain ⟨rfl, rfl⟩ := Prod.mk.inj h
  exact ⟨rfl, rfl⟩

lemma clear_workspace (h : Ready s here q) : Path.Clear (fileSnapshots s here).workspace := by
  have hr := q.2.rooted
  rw [h.1] at hr
  exact FileSnapshots.clear_ofWorkspace hr _ _

lemma checkpoint_armed (hc : Faithful s here reports crew) (hq : Ready s here q) {label : String}
    {files : List String} {r : Except Fault Unit}
    (h : runOn q (crew.snapshots.watched.checkpoint label files) = (r, q')) :
    Ready s here q' ∧ World.Agree (Walked s here) q.2 q'.2 ∧ (r = .ok () → Armed s here q'.2 q') := by
  have hw := clear_workspace hq
  obtain ⟨⟨p, log⟩, v⟩ := q
  obtain ⟨⟨p', log'⟩, v'⟩ := q'
  obtain ⟨hh, fs, hf, hs⟩ := hq
  obtain rfl : p = .files fs := hf
  have hrun : runOn (Provider.files fs, v) (crew.snapshots.checkpoint label files) = (r, (p', v')) :=
    (runOn_watch h).1
  rcases hc.checkpoint label files (.files fs, v) with heq | ⟨f, hfail⟩
  · rw [heq, Provider.operations, runOn_doing_files] at hrun
    rcases hcp : runOn (fs, v) (FileSnapshots.checkpoint label files) with ⟨u, fs', w⟩
    rw [hcp] at hrun
    obtain ⟨rfl, hpw⟩ := Prod.mk.inj hrun
    obtain ⟨rfl, rfl⟩ := Prod.mk.inj hpw
    rw [← hs.1] at hw
    obtain ⟨f, rfl, hsame, hag⟩ | ⟨held, rfl, rfl, hsame, hheld, hholds⟩ :=
      FileSnapshots.checkpoint_cases hw.absolute hcp
    · exact ⟨⟨hag.here.trans hh, fs', rfl, hs.trans hsame⟩, hag.mono fun _ _ => trivial, nofun⟩
    · exact ⟨⟨hh, fs', rfl, hs.trans hsame⟩, .refl _,
        fun _ => ⟨hh, fs', held, rfl, hs.trans hsame, hheld, hholds⟩⟩
  · rw [hfail] at hrun
    obtain ⟨rfl, hpw⟩ := Prod.mk.inj hrun
    obtain ⟨rfl, rfl⟩ := Prod.mk.inj hpw
    exact ⟨⟨hh, fs, rfl, hs⟩, .refl _, nofun⟩

/-- A commit forgets what is held, or fails and leaves it. -/
lemma commit_cases (hc : Faithful s here reports crew) (hq : Armed s here w q) {label : String}
    {r : Except Fault Unit} (h : runOn q (crew.snapshots.watched.commit label) = (r, q')) :
    q'.2 = q.2 ∧ Ready s here q' ∧ (∀ f, r = .error f → Armed s here w q') := by
  obtain ⟨⟨p, log⟩, v⟩ := q
  obtain ⟨⟨p', log'⟩, v'⟩ := q'
  obtain ⟨hh, fs, held, hf, hs, hheld, hholds⟩ := hq
  obtain rfl : p = .files fs := hf
  have hrun : runOn (Provider.files fs, v) (crew.snapshots.commit label) = (r, (p', v')) := (runOn_watch h).1
  rcases hc.commit label (.files fs, v) with heq | ⟨f, hfail⟩
  · rw [heq, Provider.operations, runOn_doing_files, FileSnapshots.commit, runOn_keep] at hrun
    obtain ⟨rfl, hpw⟩ := Prod.mk.inj hrun
    obtain ⟨rfl, rfl⟩ := Prod.mk.inj hpw
    exact ⟨rfl, ⟨hh, fs.forget, rfl, hs⟩, nofun⟩
  · rw [hfail] at hrun
    obtain ⟨rfl, hpw⟩ := Prod.mk.inj hrun
    obtain ⟨rfl, rfl⟩ := Prod.mk.inj hpw
    exact ⟨rfl, ⟨hh, fs, rfl, hs⟩, fun _ _ => ⟨hh, fs, held, rfl, hs, hheld, hholds⟩⟩

/-- A revert that is done restores the walked files. -/
lemma revert_ready (hc : Faithful s here reports crew) (hq : Armed s here w q) (hh : w.here = here)
    (h : runOn q crew.snapshots.watched.revert = (.ok (), q')) :
    Ready s here q' ∧ World.Agree (Walked s here) w q'.2 := by
  have hw := clear_workspace hq.ready
  obtain ⟨⟨p, log⟩, v⟩ := q
  obtain ⟨⟨p', log'⟩, v'⟩ := q'
  obtain ⟨hv, fs, held, hf, hs, hheld, hholds⟩ := hq
  obtain rfl : p = .files fs := hf
  have hrun : runOn (Provider.files fs, v) crew.snapshots.revert = (.ok (), (p', v')) := (runOn_watch h).1
  rcases hc.revert (.files fs, v) with heq | ⟨f, hfail⟩
  · rw [heq, Provider.operations, runOn_doing_files] at hrun
    rcases hrv : runOn (fs, v) FileSnapshots.revert with ⟨u, fs', v''⟩
    rw [hrv] at hrun
    obtain ⟨rfl, hpw⟩ := Prod.mk.inj hrun
    obtain ⟨rfl, rfl⟩ := Prod.mk.inj hpw
    rw [← hs.1] at hw
    obtain ⟨hforget, hhere, hbytes⟩ := FileSnapshots.revert_restores hw hheld hholds hrv
    obtain rfl : fs' = fs.forget := hforget
    refine ⟨⟨hhere.trans hv, fs.forget, rfl, hs⟩, (hhere.trans hv).trans hh.symm, ?_⟩
    intro place hplace
    obtain ⟨⟨d, hd, hp⟩, -⟩ := hplace
    have hcov : fs.Covers d := by
      rw [FileSnapshots.Covers, hs.2]
      exact hd
    rw [hp, ← hs.1]
    exact hbytes d hcov
  · rw [hfail] at hrun
    exact absurd (Prod.mk.inj hrun).1 nofun

/-- Without a failing revert, a rollback is a revert that is done. -/
lemma rollback_ready {fr : Frame (Provider × List Call)} (hc : Faithful s here reports crew)
    (hfr : fr.guard.snapshots = crew.snapshots.watched) (hq : Armed s here w q) (hh : w.here = here)
    {b : Option String} {r : Except Fault Unit} (h : runOn q (fr.guard.rollback b) = (r, q'))
    (hlog : Call.revert false ∉ q'.1.2) :
    r = .ok () ∧ Ready s here q' ∧ World.Agree (Walked s here) w q'.2 := by
  obtain ⟨u, v, hv, hcases⟩ := rollback_cases h
  rw [hfr] at hv
  rcases u with f | _
  · have hnoted : Call.revert false ∈ v.1.2 := by
      rw [(runOn_watch hv).2]
      exact List.mem_append_right _ (List.mem_singleton.2 rfl)
    obtain ⟨hf, -⟩ | ⟨_, -, -, -, rfl⟩ | ⟨_, -, -, hfall⟩ := hcases
    · exact absurd hf nofun
    · exact absurd hnoted hlog
    · obtain ⟨-, rfl⟩ | ⟨_, _, _, _, -, -, -, rfl, -⟩ := fallBack_cases hfall
      · exact absurd hnoted hlog
      · exact absurd hnoted hlog
  · obtain ⟨-, hr, rfl⟩ | ⟨_, hf, -⟩ | ⟨_, hf, -⟩ := hcases
    · exact ⟨hr, revert_ready hc hq hh hv⟩
    · exact absurd hf nofun
    · exact absurd hf nofun

/-! ### Attempts -/

/-- A frame with watched snapshots that was made of a crew. -/
structure Made (s : Settings) (crew : Crew Provider) (fr : Frame (Provider × List Call)) : Prop where
  settings : fr.settings = s
  measure : ∃ v i v', runOn v crew.toolchain = (.ok i, v') ∧ fr.measure = measure s i
  registry : ∃ v v', runOn v crew.registry = (.ok fr.registry, v')
  snapshots : fr.guard.snapshots = crew.snapshots.watched
  backups : fr.guard.backups = crew.backups

variable {fr : Frame (Provider × List Call)} {a : Attempt} {x y : State (Provider × List Call)}

lemma read_ok {o : Observation} {ds : List Diagnostic} (h : read here s o = .ok ds) :
    Diagnostic.ofOutput here s.projectPath o.output = .ok ds := by
  rw [read] at h
  rcases hp : Diagnostic.ofOutput here s.projectPath o.output with f | es
  · rw [hp] at h
    exact absurd h nofun
  · rw [hp] at h
    change (if (o.code != 0 && es.isEmpty) = true then Except.error _ else Except.ok es) = .ok ds at h
    split at h
    · exact absurd h nofun
    · exact h

/-- A measurement changes no walked file, and what it answers is current. -/
lemma measure_parsed (hc : Faithful s here reports crew) {v v' : World} {i : Act Observation}
    (hi : runOn v crew.toolchain = (.ok i, v')) (hw : w.here = here) {m : Except Fault (List Diagnostic)}
    (h : runOn w (measure s i) = (m, w')) : World.Agree (Walked s here) w w' ∧
      ∀ ds, m = .ok ds → Diagnostic.ofOutput here s.projectPath (reports w'.tree) = .ok ds := by
  obtain ⟨hspares, houtput⟩ := hc.measures hi
  have hag : World.Agree (Walked s here) w (runOn w (measure s i)).2 :=
    Spares.bind (.note _) (fun _ => .bind hspares fun o => .bind .get fun _ => .ofResult _) w
  rw [h] at hag
  refine ⟨hag, ?_⟩
  rintro ds rfl
  obtain ⟨_, u, hn, h⟩ := of_bind_ok h
  obtain ⟨-, rfl⟩ := Prod.mk.inj hn
  obtain ⟨o, u, ho, h⟩ := of_bind_ok h
  simp only [runOn_bind, runOn_get, runOn_ofResult] at h
  obtain ⟨hr, rfl⟩ := Prod.mk.inj h
  rw [hag.here.trans hw] at hr
  rw [hc.depends _ _ hag.files, ← read_ok hr, houtput _ o _ ho]
  rfl

lemma store_root (s : Settings) (here : String) :
    (store s here).root = Path.absolute here (s.backupRoot here) := by
  rw [store, Archive.at]

/-- What spares everything outside the store of backups spares the walked files. -/
lemma spares_store (hh : Path.isAbsolute here = true) {b : Act α}
    (h : Spares (fun p => ¬ Path.lexical (store s here).root <+: p) b) : Spares (Walked s here) b := by
  have hroot : Path.isAbsolute (s.backupRoot here) = true := s.isAbsolute_resolve _ hh
  refine h.mono fun p hp => ?_
  rw [store_root, Path.lexical_absolute hroot]
  exact hp.2 _ List.mem_cons_self

lemma Refines.agree {P : Place → Prop} {b c : Act α} (h : Refines b c) (hc : Spares P c) : Spares P b := by
  intro w
  rcases h w with heq | ⟨f, hf⟩
  · rw [heq]
    exact hc w
  · rw [hf]
    exact .refl w

lemma backUp_agree (hc : Faithful s here reports crew) (hfr : Made s crew fr) (hx : x.2.here = here)
    {r : Except Fault (Option String)} (h : runOn x (backUp fr a) = (r, y)) :
    World.Agree (Walked s here) x.2 y.2 := by
  have hh := x.2.rooted
  rw [hx] at hh
  obtain ⟨-, -, rfl⟩ | ⟨bs, u, w, hbs, hu, hy⟩ := backUp_cases h
  · exact .refl _
  · rw [hfr.backups] at hbs
    have hclear : Path.Clear (store s here).root := by
      rw [store_root]
      exact Path.clear_absolute _ hh
    have hag := Refines.agree (hc.create hbs _ _) (spares_store hh
      (Archive.spares_create hclear (presentFiles x.2 fr.settings a.diagnostics) a.label)) x.2
    rw [hu] at hag
    obtain ⟨b, -, -, rfl⟩ | ⟨_, -, -, rfl⟩ := hy
    · exact hag
    · exact hag

lemma Fresh.agree (hc : Faithful s here reports crew) (h : Fresh s here reports x) (hs : Steady x y)
    (hp : y.1.2 = x.1.2) (ha : World.Agree (Walked s here) x.2 y.2) : Fresh s here reports y := by
  obtain ⟨⟨hh, fs, hf, hsame⟩, hcur⟩ := h
  refine ⟨⟨ha.here.trans hh, fs, ?_, hsame⟩, (hcur.agree hc ha).steady hs⟩
  rw [← hf]
  exact congrArg Prod.fst hp

/-- What is known before a checkpoint is known after it, and a checkpoint that was taken holds it. -/
lemma checkpoint_fresh (hc : Faithful s here reports crew) (hfr : Made s crew fr) (hx : Fresh s here reports x)
    {p : Phase} {r : Except Fault Phase} (h : runOn x (checkpoint fr a p) = (r, y)) :
    Fresh s here reports y ∧ ∀ p', r = .ok p' → p'.failed = false → Armed s here y.2 y.held := by
  have hfailed : ∀ {p p' : Phase} {f : Fault}, notBegun p f = .ok p' → p'.failed = true := fun hp => by
    rw [(notBegun_ok hp).2]
    rfl
  have hback : ∀ {r z}, runOn (x.enter .checkpointing) (backUp fr a) = (r, z) → Fresh s here reports z :=
    fun hb => hx.agree hc ((Steady.enter _).trans (backUp_steady hb)) (moves_backUp (x := x.enter _) hb)
      (backUp_agree (x := x.enter _) hc hfr hx.1.1 hb)
  obtain ⟨f, hb, rfl⟩ | ⟨b, z, u, v, hb, hu, rfl, hr⟩ := checkpoint_cases h
  · refine ⟨hback hb, fun p' hp hok => ?_⟩
    rw [hfailed hp] at hok
    exact absurd hok nofun
  · obtain ⟨hz, hcur⟩ := hback hb
    rw [Guard.begin, hfr.snapshots] at hu
    obtain ⟨hready, hag, harmed⟩ := checkpoint_armed hc hz hu
    refine ⟨⟨hready, (hcur.agree hc hag).steady (.hold v)⟩, fun p' hp hok => ?_⟩
    obtain ⟨rfl, -⟩ | ⟨f, -, rfl⟩ := hr
    · exact harmed rfl
    · rw [hfailed hp] at hok
      exact absurd hok nofun

/-- Nothing is forgotten while a strategy edits, and the measurement that follows is current. -/
lemma edit_armed (hc : Faithful s here reports crew) (hfr : Made s crew fr) (hx : Armed s here w x.held)
    {p : Phase} {r : Except Fault (Phase × Except Fault (List Diagnostic))}
    (h : runOn x (edit fr a p) = (r, y)) : Armed s here w y.held ∧
      ∀ p' ds, r = .ok (p', .ok ds) → Diagnostic.ofOutput here s.projectPath (reports y.2.tree) = .ok ds := by
  obtain ⟨hh, hheld⟩ := hx
  obtain ⟨v, v', hreg⟩ := hfr.registry
  obtain ⟨v₁, i, v₂, hi, hmeasure⟩ := hfr.measure
  have happly := Registry.spares_apply (a := a.assignment fr.settings) (hc.strategies hreg) x.2
  obtain ⟨u, w', hu, ⟨f, -, -, rfl, rfl⟩ | ⟨p', m, u', -, hm, rfl, rfl⟩⟩ := edit_cases h
  · rw [hu] at happly
    refine ⟨⟨happly.here.trans hh, hheld⟩, fun p' ds hr => ?_⟩
    exact absurd (Prod.mk.inj (Except.ok.inj hr)).2 nofun
  · rw [hu] at happly
    rw [hmeasure] at hm
    obtain ⟨hag, hparsed⟩ := measure_parsed hc hi (happly.here.trans hh) hm
    refine ⟨⟨hag.here.trans (happly.here.trans hh), hheld⟩, fun p' ds hr => ?_⟩
    exact hparsed ds (Prod.mk.inj (Except.ok.inj hr)).2

/-- A world that an attempt began in: what is known is current there. -/
structure Base (s : Settings) (here : String) (reports : Tree → String) (w : World) (p : Progress) : Prop where
  seen : w.here = here
  current : Current s here reports p w.tree

lemma undo_fresh (hc : Faithful s here reports crew) (hfr : Made s crew fr)
    (hb : Base s here reports w x.1.1) (hx : Armed s here w x.held) {p : Phase} {r : Except Fault Phase}
    (h : runOn x (undo fr p) = (r, y)) (hlog : Call.revert false ∉ y.1.2.2) : Fresh s here reports y := by
  obtain ⟨u, v, hu, rfl, -⟩ := undo_cases h
  obtain ⟨-, hready, hag⟩ := rollback_ready hc hfr.snapshots hx hb.seen hu hlog
  exact ⟨hready, (hb.current.agree hc hag).steady (.enter_hold _ v)⟩

/-- However an attempt that was measured is settled, what is known then is current. -/
lemma settle_fresh (hc : Faithful s here reports crew) (hfr : Made s crew fr)
    (hb : Base s here reports w x.1.1) (hx : Armed s here w x.held) {p q : Phase} {ds : List Diagnostic}
    (hds : Diagnostic.ofOutput here s.projectPath (reports x.2.tree) = .ok ds)
    (h : runOn x (settle fr a p ds) = (.ok q, y)) (hlog : Call.revert false ∉ y.1.2.2) :
    Fresh s here reports y := by
  obtain ⟨u, v, hu, hr⟩ := settle_cases h
  have hpre : v.1.2 <+: y.1.2.2 := by
    have hw := hfr.snapshots ▸ moves_watched crew.snapshots
    obtain ⟨-, -, rfl⟩ | ⟨-, -, rfl⟩ | ⟨f, -, -, hundo⟩ | ⟨_, -, -, hq, -⟩ := hr
    · exact List.prefix_rfl
    · exact List.prefix_rfl
    · exact moves_undo hw hundo
    · exact absurd hq nofun
  obtain ⟨-, o, ho, rfl⟩ | ⟨-, o, ho, rfl⟩ := guard_settle_cases hu
  · obtain ⟨rfl, hready, hag⟩ :=
      rollback_ready hc hfr.snapshots hx hb.seen ho fun hm => hlog (hpre.subset hm)
    obtain ⟨-, -, rfl⟩ | ⟨hu, -⟩ | ⟨_, hf, -⟩ | ⟨_, hf, -⟩ := hr
    · exact ⟨hready, (hb.current.agree hc hag).steady (.enter_hold _ v)⟩
    · exact absurd hu nofun
    · exact absurd hf nofun
    · exact absurd hf nofun
  · rw [hfr.snapshots] at ho
    obtain ⟨hw, hready, harmed⟩ := commit_cases hc hx ho
    obtain ⟨hu, -⟩ | ⟨-, -, rfl⟩ | ⟨f, hf, -, hundo⟩ | ⟨_, -, -, hq, -⟩ := hr
    · cases o <;> exact absurd hu nofun
    · refine ⟨hready, ?_, rfl⟩
      have hv : v.2 = x.2 := hw
      change Diagnostic.ofOutput here s.projectPath (reports v.2.tree) = .ok ds
      rw [hv, hds]
    · have hv : Armed s here w v := by
        rcases o with g | _
        · exact harmed g rfl
        · exact absurd hf nofun
      exact undo_fresh (x := (x.enter (settling fr p ds)).hold v) hc hfr
        ⟨hb.seen, hb.current.steady (.enter_hold _ v)⟩ hv hundo hlog
    · exact absurd hq nofun

/-- An attempt that may edit the tree leaves what is known current, however it ends. -/
lemma trial_fresh (hc : Faithful s here reports crew) (hfr : Made s crew fr) (hx : Fresh s here reports x)
    {p q : Phase} (ho : Open x.1.1.current p) (h : runOn x (trial fr a p) = (.ok q, y))
    (hlog : Call.revert false ∉ y.1.2.2) : Fresh s here reports y := by
  obtain ⟨_, -, hq⟩ | ⟨p', hch, -, -⟩ | ⟨p', z, p'', m, u, hch, hp, he, hm⟩ := trial_cases h
  · exact absurd hq nofun
  · exact (checkpoint_fresh hc hfr hx hch).1
  · obtain ⟨hz, harmed⟩ := checkpoint_fresh hc hfr hx hch
    obtain ⟨hu, hparsed⟩ := edit_armed hc hfr (harmed p' rfl hp) he
    have hsteady := (edit_steady ((checkpoint_phase ho hch).2 hp) he).1
    have hb : Base s here reports z.2 u.1.1 := ⟨hz.1.1, hz.2.steady hsteady⟩
    obtain ⟨ds, rfl, hs⟩ | ⟨_, -, -, hs⟩ | ⟨_, -, -, hq, -⟩ := hm
    · exact settle_fresh hc hfr hb hu (hparsed p'' ds rfl) hs hlog
    · exact undo_fresh hc hfr hb hu hs hlog
    · exact absurd hq nofun

lemma Fresh.advance (hx : Fresh s here reports x) {f : Progress → Progress}
    (hd : (f x.1.1).diagnostics = x.1.1.diagnostics) (hn : (f x.1.1).current = x.1.1.current) :
    Fresh s here reports (x.advance f) := ⟨hx.1, hx.2.congr hd hn⟩

lemma paused_fresh (hx : Fresh s here reports x) (t : Settings) : Fresh s here reports (x.paused t) := by
  unfold State.paused
  split
  · have hy : Fresh s here reports (x.beside ((x.2.note (.sleep t.phaseDelay)).elapse t.phaseDelay)) :=
      ⟨hx.1, hx.2⟩
    exact hy.advance rfl rfl
  · exact hx.advance rfl rfl

/-- A round leaves what is known current. -/
lemma round_fresh (hc : Faithful s here reports crew) (hfr : Made s crew fr) (hd : s.dryRun = false)
    (hx : Fresh s here reports x) {o : Option (List Diagnostic)} (h : runOn x (round fr a) = (.ok o, y))
    (hlog : Call.revert false ∉ y.1.2.2) : Fresh s here reports y := by
  obtain ⟨u, z, hu, ⟨_, -, hq, -⟩ | ⟨p, rfl, rfl, -⟩⟩ := round_cases h
  · exact absurd hq nofun
  · obtain ⟨w, d, hw, hp⟩ := attempt_cases hu
    rcases w with f | q
    · exact absurd hp nofun
    · obtain ⟨hdry, -⟩ | ⟨-, ht⟩ := work_cases hw
      · rw [hfr.settings, hd] at hdry
        exact absurd hdry nofun
      · exact (trial_fresh hc hfr (paused_fresh hx _) (blank_open a _) ht hlog).advance rfl rfl

/-- What is known stays current, unless a revert has failed. -/
lemma kept_fresh (hc : Faithful s here reports crew) (hfr : Made s crew fr) (hd : s.dryRun = false) :
    Kept fr fun x => Call.revert false ∉ x.1.2.2 → Fresh s here reports x where
  round {x y a o} hx _ hr hlog := by
    have hw := hfr.snapshots ▸ moves_watched crew.snapshots
    exact round_fresh hc hfr hd (hx fun hm => hlog ((moves_round hw hr).subset hm)) hr hlog
  turn _ hx hlog := (hx hlog).advance rfl rfl
  skip _ hx hlog := (hx hlog).advance rfl rfl

/-! ### Whole runs -/

/-- The first measurement is current. -/
lemma analyze_current (hc : Faithful s here reports crew) {c : Crew σ} (ht : c.toolchain = crew.toolchain)
    {x y : Outer σ} (hx : x.2.here = here) {o : Option (Act (List Diagnostic))}
    (h : runOn x (analyze s c) = (.ok o, y)) :
    y.2.here = here ∧ Current s here reports y.1.1 y.2.tree ∧
      ∀ m, o = some m → ∃ v i v', runOn v crew.toolchain = (.ok i, v') ∧ m = measure s i := by
  obtain ⟨u, v, hu, ⟨_, -, ho, -⟩ | ⟨i, m, v', rfl, hm, ⟨_, -, ho, -⟩ | ⟨ds, rfl, rfl, ho⟩⟩⟩ := analyze_cases h
  · exact absurd ho nofun
  · exact absurd ho nofun
  · have hi : runOn x.2 crew.toolchain = (.ok i, v) := ht ▸ hu
    have hv := hc.starts x.2
    rw [hi] at hv
    obtain ⟨hag, hparsed⟩ := measure_parsed hc hi (hv.here.trans hx) hm
    refine ⟨hag.here.trans (hv.here.trans hx), ⟨hparsed ds rfl, rfl⟩, fun m' hm' => ⟨x.2, i, v, hi, ?_⟩⟩
    rw [hm'] at ho
    split at ho
    · exact absurd (Except.ok.inj ho) nofun
    · exact Option.some.inj (Except.ok.inj ho)

/-- Completing the crew changes no walked file. -/
lemma complete_agree (hc : Faithful s here reports crew) {m : Act (List Diagnostic)}
    (hm : ∃ v i v', runOn v crew.toolchain = (.ok i, v') ∧ m = measure s i) {held : Provider × List Call}
    (h : runOn w (complete s crew.watched m) = (.ok (fr, held), w')) :
    World.Agree (Walked s here) w w' ∧ Made s crew fr := by
  obtain ⟨hset, rfl, hguard, u, v, hreg, hprov, hens⟩ := complete_ok h
  have hreg' : runOn w crew.registry = (.ok fr.registry, u) := hreg
  have hu := hc.loads w
  rw [hreg'] at hu
  have hv : World.Agree (Walked s here) u (runOn u crew.watched.provider).2 := (hc.opens.map _) u
  rw [hprov] at hv
  refine ⟨?_, hset, hm, ⟨w, u, hreg'⟩, by rw [hguard]; rfl, by rw [hguard]; rfl⟩
  obtain ⟨-, rfl⟩ | ⟨bs, hbs, he⟩ := hens
  · exact hu.trans hv
  · have hag := Refines.agree (P := Walked s here) (hc.ensure hbs) (Archive.spares_ensure _) v
    rw [he] at hag
    exact (hu.trans hv).trans hag

/-- Setting a run up leaves what is known current. -/
lemma prepare_current (hc : Faithful s here reports crew) {x y : Outer (Provider × List Call)}
    (hx : x.2.here = here) {o : Option (Frame (Provider × List Call) × (Provider × List Call))}
    (h : runOn x (prepare s crew.watched) = (.ok o, y)) :
    y.2.here = here ∧ Current s here reports y.1.1 y.2.tree ∧ ∀ fr held, o = some (fr, held) → Made s crew fr := by
  obtain ⟨u, z, hz, ⟨_, -, ho, -⟩ | ⟨rfl, ho, rfl⟩ | ⟨m, v, w, rfl, hv, ho, rfl⟩⟩ := prepare_cases h
  · exact absurd ho nofun
  · obtain ⟨hh, hcur, -⟩ := analyze_current (c := crew.watched) hc rfl hx hz
    refine ⟨hh, hcur, fun fr held hs => ?_⟩
    rw [hs] at ho
    exact absurd (Except.ok.inj ho) nofun
  · obtain ⟨hh, hcur, hm⟩ := analyze_current (c := crew.watched) hc rfl hx hz
    rcases v with f | ⟨fr, held⟩
    · exact absurd ho nofun
    · obtain ⟨hag, hmade⟩ := complete_agree hc (hm m rfl) hv
      refine ⟨hag.here.trans hh, hcur.agree hc hag, fun fr' held' hs => ?_⟩
      rw [hs] at ho
      obtain ⟨rfl, -⟩ := Prod.mk.inj (Option.some.inj (Except.ok.inj ho))
      exact hmade

/-- A run that opens snapshots in memory of its project. -/
def OpensFiles (s : Settings) (crew : Crew Provider) (w : World) : Prop :=
  ∀ fr p z, runOn (started (opening w)) (prepare s crew) = (.ok (some (fr, p)), z) →
    p = .files (fileSnapshots s w.here)

/-- The provider of a run is opened where the run began, if no one leaves the directory that paths are seen from. -/
lemma opensFiles_of_here (hstarts : Spares (fun _ => False) crew.toolchain)
    (hmeasures : ∀ {v i v'}, runOn v crew.toolchain = (.ok i, v') → Spares (fun _ => False) i)
    (hloads : Spares (fun _ => False) crew.registry)
    (h : ∀ v p v', v.here = w.here → runOn v crew.provider = (.ok p, v') → p = .files (fileSnapshots s w.here)) :
    OpensFiles s crew w := by
  intro fr p z hp
  obtain ⟨m, y, w', hy, hcomplete, -⟩ := prepare_ok hp
  obtain ⟨-, -, -, v, v', hregistry, hprovider, -⟩ := complete_ok hcomplete
  obtain ⟨_, u, hu, ⟨_, -, hr, -⟩ | ⟨i, n, u', rfl, hn, ⟨_, -, hr, -⟩ | ⟨ds, -, rfl, -⟩⟩⟩ := analyze_cases hy
  · exact absurd hr nofun
  · exact absurd hr nofun
  · have hstart := hstarts w
    have hmeasure : Spares (fun _ => False) (measure s i) :=
      .bind (.note _) fun _ => .bind (hmeasures hu) fun _ => .bind .get fun _ => .ofResult _
    have hmeasured := hmeasure u
    have hload := hloads u'
    change runOn w crew.toolchain = _ at hu
    change runOn u' crew.registry = _ at hregistry
    rw [hu] at hstart
    rw [hn] at hmeasured
    rw [hregistry] at hload
    exact h v p v' (hload.here.trans (hmeasured.here.trans hstart.here)) hprovider

/-- A run opens what its provider is. -/
lemma opensFiles_of (hc : Faithful s w.here reports crew) (h : ∀ v p v', v.here = w.here →
    runOn v crew.provider = (.ok p, v') → p = .files (fileSnapshots s w.here)) : OpensFiles s crew w :=
  opensFiles_of_here hc.starts (fun hi => (hc.measures hi).1.mono fun _ hp => hp.elim)
    (hc.loads.mono fun _ hp => hp.elim) h

/-- What is known is current at the start of every attempt and when the phases have come to their end. -/
lemma phases_fresh (hc : Faithful s w.here reports crew) (hd : s.dryRun = false) (hf : OpensFiles s crew w)
    (hlog : Call.revert false ∉ calls s crew w) {held : Provider × List Call} {z : Outer (Provider × List Call)}
    (hp : runOn (started (opening w)) (prepare s crew.watched) = (.ok (some (fr, held)), z)) :
    ∃ r t, runOn (started (opening w)) (body s crew.watched) = (r, t.ended r) ∧
      (r = .ok () → Fresh s w.here reports t) ∧ ∀ m ∈ runMade s fr held z,
        Fresh s w.here reports m.2 ∧ m.1.diagnostics = recordsOf m.2.1.1 m.1.category := by
  obtain ⟨hz, hcur, hmade⟩ := prepare_current hc (by rfl) hp
  have hfr : Made s crew fr := hmade fr held rfl
  obtain ⟨fr', held', hp', rfl, rfl⟩ := prepare_watched hp
  rcases hb : runOn (started (opening w)) (body s crew.watched) with ⟨r, v⟩
  obtain ⟨o, z', hp'', hcases⟩ := body_cases hb
  obtain ⟨rfl, rfl⟩ := Prod.mk.inj (hp.symm.trans hp'')
  obtain ⟨_, ho, -⟩ | ⟨ho, -⟩ | ⟨fr, held, ho, hg⟩ := hcases
  · cases ho
  · cases Except.ok.inj ho
  · obtain ⟨rfl, rfl⟩ := Prod.mk.inj (Option.some.inj (Except.ok.inj ho))
    have hstart : Fresh s w.here reports ((z.note (scheduled s)).inner (held', [])) :=
      ⟨⟨hz, fileSnapshots s w.here, hf fr' held' _ hp', rfl, rfl⟩, hcur.congr rfl rfl⟩
    obtain ⟨t, ht, rfl⟩ := goThrough_cases hg
    have hcourse := course_remedyAll (kept_fresh hc hfr hd) _ (fun _ => hstart) ht
    have hmoves := (moves_remedyAll (hfr.snapshots ▸ moves_watched crew.snapshots) _ ht).2
    have hcalls : Call.revert false ∉ t.1.2.2 := by
      rcases hrun : runOn (opening w) (run s crew.watched) with ⟨q, y⟩
      obtain ⟨q', z', hb', hy⟩ := calls_run hrun
      obtain ⟨-, rfl⟩ := Prod.mk.inj (hb.symm.trans hb')
      rw [calls, hrun, hy, calls_ended] at hlog
      exact hlog
    refine ⟨r, t, rfl, fun hr => ?_, fun m hm => ?_⟩
    · obtain ⟨-, hfresh⟩ | ⟨_, -, f, -, hf⟩ := hcourse.result
      · exact hfresh hcalls
      · cases hr.symm.trans hf
    · obtain ⟨hfresh, hrecords⟩ := hcourse.start m hm
      exact ⟨hfresh fun hrev => hcalls ((hmoves m hm).subset hrev), hrecords⟩

/-- An attempt starts with current diagnostics, and its strategy is handed those of its category as the
toolchain reports them on the tree that the strategy edits. -/
structure Informed (s : Settings) (here : String) (reports : Tree → String) (fr : Frame Provider) (a : Attempt)
    (x : State Provider) : Prop where
  current : Current s here reports (x.paused fr.settings).1.1 (x.paused fr.settings).2.tree
  handed : ∀ p y, runOn (x.paused fr.settings) (checkpoint fr a (a.blank x.1.1.current)) = (.ok p, y) →
    p.failed = false → ∃ ds, Diagnostic.ofOutput here s.projectPath (reports y.2.tree) = .ok ds ∧
      (a.assignment fr.settings).diagnostics = ds.filter (·.category == a.category)

lemma attempt_informed (hc : Faithful s w.here reports crew) (hd : s.dryRun = false) (hf : OpensFiles s crew w)
    (hlog : Call.revert false ∉ calls s crew w) {fr : Frame Provider} {x : State Provider}
    (ha : Attempted s crew w fr a x) : Informed s w.here reports fr a x := by
  obtain ⟨x, hx, rfl⟩ := attempted_watched ha
  obtain ⟨held, z, hp, hm⟩ := hx
  have hfr : Made s crew fr.watched := (prepare_current hc (by rfl) hp).2.2 _ _ rfl
  obtain ⟨-, -, -, -, hmade⟩ := phases_fresh hc hd hf hlog hp
  obtain ⟨hfresh, hrecords⟩ := hmade _ hm
  have hpaused := paused_fresh hfresh fr.settings
  refine ⟨by rw [forget_paused]; exact hpaused.2, fun p y hcp hok => ?_⟩
  rw [forget_paused, same_checkpoint] at hcp
  rcases hw : runOn (x.paused fr.settings) (checkpoint fr.watched a (a.blank x.1.1.current)) with ⟨r, y'⟩
  have hcp' : (r, y'.forget) = (.ok p, y) := by
    rw [← hcp]
    exact (congrArg (fun q => (q.1, State.forget q.2)) hw).symm
  obtain ⟨rfl, rfl⟩ := Prod.mk.inj hcp'
  have hsteady := (paused_steady x fr.settings).trans (checkpoint_steady hw)
  refine ⟨y'.1.1.diagnostics, (checkpoint_fresh hc hfr hpaused hw).1.2.parsed, ?_⟩
  rw [hsteady.diagnostics, ← Grouping.get_ofList]
  exact hrecords

/-- **The diagnostics of a run are current.** When the toolchain reports on the walked files, and no
revert fails, every attempt starts with what the toolchain reports on the tree as it is, its strategy is
handed exactly the diagnostics of its category, and a run that is reported without a failure ends with
what the toolchain reports on the tree that it leaves: the final count is their number. -/
theorem run_current (s : Settings) (crew : Crew Provider) (w : World) (reports : Tree → String)
    (hc : Faithful s w.here reports crew) (hd : s.dryRun = false) (hf : OpensFiles s crew w)
    (hlog : Call.revert false ∉ calls s crew w) :
    (∀ fr a x, Attempted s crew w fr a x → Informed s w.here reports fr a x) ∧
      ∀ r y, runOn (opening w) (run s crew) = (.ok r, y) → r.status ≠ "error" →
        Current s w.here reports y.1.1 y.2.tree ∧ r.final = y.1.1.diagnostics.length := by
  refine ⟨fun fr a x ha => attempt_informed hc hd hf hlog ha, fun r y hr hs => ?_⟩
  have hw := run_watched s crew (opening w)
  change runOn (opening w) (run s crew) = _ at hw
  rw [hr] at hw
  rcases hrun : runOn (opening w) (run s crew.watched) with ⟨r', y'⟩
  rw [hrun] at hw
  obtain ⟨rfl, rfl⟩ := Prod.mk.inj hw
  obtain ⟨z, w', hb, hdel, rfl, rfl⟩ := body_ok_of_status hrun hs
  obtain ⟨o, z', hp, hcases⟩ := body_cases hb
  have hcur : z.2.here = w.here ∧ Current s w.here reports z.1.1 z.2.tree := by
    obtain ⟨_, -, ho, -⟩ | ⟨rfl, -, rfl⟩ | ⟨fr, held, rfl, -⟩ := hcases
    · exact absurd ho nofun
    · obtain ⟨hz, hcur, -⟩ := prepare_current hc (by rfl) hp
      exact ⟨hz, hcur.congr rfl rfl⟩
    · obtain ⟨r', t, hb', hfresh, -⟩ := phases_fresh hc hd hf hlog hp
      obtain ⟨rfl, rfl⟩ := Prod.mk.inj (hb.symm.trans hb')
      exact ⟨(hfresh rfl).1.1, (hfresh rfl).2.congr rfl rfl⟩
  have hown : ∀ o ∈ s.ownPaths w.here, ∀ p, Walked s w.here p → p ≠ Path.lexical o := fun o ho p hp heq =>
    hp.2 o ho (by rw [heq])
  have hag : World.Agree (Walked s w.here) z.2 (runOn z.2 (deliver s z.1.1.grouping (report s z.1.1 z.2))).2 :=
    spares_deliver _ _ (by rw [hcur.1]; exact hown _ (by simp [Settings.ownPaths]))
      (by rw [hcur.1]; exact hown _ (by simp [Settings.ownPaths]))
  rw [hdel] at hag
  have hend := hcur.2.agree hc hag
  exact ⟨hend, congrArg Int.ofNat hend.counted⟩

/-- The crew of settings is faithful when its toolchain is: its strategies, snapshots and backups are
what a faithful crew may have. -/
theorem faithful_ofSettings (defaults : Defaults) (s : Settings) (here : String)
    (toolchain : Act (Act Observation)) (reports : Tree → String)
    (hdepends : ∀ t t', (∀ p, Walked s here p → t'.bytes? p = t.bytes? p) → reports t' = reports t)
    (hstarts : Spares (fun _ => False) toolchain)
    (hmeasures : ∀ v i v', runOn v toolchain = (.ok i, v') →
      Spares (Walked s here) i ∧ ∀ u o u', runOn u i = (.ok o, u') → o.output = reports u.tree) :
    Faithful s here reports { Crew.ofSettings here defaults s with toolchain } where
  depends := hdepends
  starts := hstarts
  measures h := hmeasures _ _ _ h
  loads := .ofResult _
  strategies {v r v'} h := by
    have hr : runOn v (Act.ofResult (Registry.ofSettings defaults s)) = (.ok r, v') := h
    rw [runOn_ofResult] at hr
    exact Registry.spares_ofSettings (Prod.mk.inj hr).1
  opens := (Provider.looks_ofSettings s).spares
  checkpoint _ _ _ := .inl rfl
  commit _ _ := .inl rfl
  revert _ := .inl rfl
  ensure h _ := .inl (by rw [Crew.backups_ofSettings defaults h]; rfl)
  create h _ _ _ := .inl (by rw [Crew.backups_ofSettings defaults h]; rfl)

/-- Settings that ask for snapshots in memory get those. -/
lemma runOn_ofSettings_files (hd : s.dryRun = false) (hp : s.snapshotProvider = "files") :
    runOn w (Provider.ofSettings s) = (.ok (.files (fileSnapshots s w.here)), w) := by
  have hnone : (s.dryRun || s.snapshotProvider == "none") = false := by rw [hd, hp]; decide
  have hauto : (s.snapshotProvider == "auto") = false := by rw [hp]; decide
  rw [Provider.ofSettings, hnone, if_neg Bool.false_ne_true, runOn_bind, runOn_get]
  dsimp only
  rw [hauto, if_neg Bool.false_ne_true, hp]
  rfl

/-- Settings that ask for snapshots in memory open those. -/
lemma opensFiles_ofSettings {defaults : Defaults} {toolchain : Act (Act Observation)}
    (hc : Faithful s w.here reports { Crew.ofSettings w.here defaults s with toolchain }) (hd : s.dryRun = false)
    (hp : s.snapshotProvider = "files") : OpensFiles s { Crew.ofSettings w.here defaults s with toolchain } w := by
  refine opensFiles_of hc fun v p v' hv h => ?_
  obtain ⟨hq, -⟩ := Prod.mk.inj ((runOn_ofSettings_files hd hp).symm.trans h)
  rw [← Except.ok.inj hq, hv]

/-- What a toolchain reports that misses one file. -/
def missing (t : Tree) : String :=
  if (t.bytes? ["p", "src", "a.ts"]).isSome then "" else "src/a.ts(1,1): error TS2307: Cannot find module"

/-- A crew whose toolchain misses a file, and whose strategy makes it. -/
def mending : Crew Provider where
  toolchain := pure (Act.look fun w => { code := 0, output := missing w.tree })
  registry := pure ⟨[("import-issues", ⟨.custom, fun _ => do
    Act.ensureDirectories "/p/src"
    Act.writeText "/p/src/a.ts" "x"
    return .edits {}⟩)]⟩
  provider := pure (.files (fileSnapshots { projectPath := "/p" } "/"))
  snapshots := Provider.operations
  backups := none

lemma mending_faithful : Faithful { projectPath := "/p" } "/" missing mending where
  depends t t' h := by
    have hw : Walked { projectPath := "/p" } "/" ["p", "src", "a.ts"] := by
      refine ⟨⟨["src", "a.ts"], ⟨by simp, by decide, by decide +kernel⟩, by decide⟩, ?_⟩
      decide +kernel
    rw [missing, missing, h _ hw]
  starts := .pure _
  measures := by
    intro v i v' h
    obtain rfl := Except.ok.inj (Prod.mk.inj h).1
    refine ⟨.look _, fun u o u' ho => ?_⟩
    rw [← Except.ok.inj (Prod.mk.inj ho).1]
  loads := .pure _
  strategies := by
    intro v r v' h e he a
    obtain rfl := Except.ok.inj (Prod.mk.inj h).1
    rw [List.mem_singleton.1 he]
    exact .bind (.ensureDirectories _) fun _ => .bind (.writeAny _ _) fun _ => .pure _
  opens := .pure _
  checkpoint _ _ _ := .inl rfl
  commit _ _ := .inl rfl
  revert _ := .inl rfl
  ensure h := absurd h nofun
  create h := absurd h nofun

/-- A run that remedies what its toolchain reports: the file is missing first, and nothing is at the end. -/
theorem run_current_mending : ∃ r y, runOn (opening {}) (run { projectPath := "/p" } mending) = (.ok r, y) ∧
    r.initial = 1 ∧ r.final = 0 ∧ Current { projectPath := "/p" } "/" missing y.1.1 y.2.tree := by
  have hf : OpensFiles { projectPath := "/p" } mending {} :=
    opensFiles_of mending_faithful fun v p v' _ h => (Except.ok.inj (Prod.mk.inj h).1).symm
  have hwatched : (runOn (opening {}) (run { projectPath := "/p" } mending.watched)).1.toOption.map
        (fun r => (r.initial, r.final, r.status)) = some (1, 0, "success") ∧
      Call.revert false ∉ calls { projectPath := "/p" } mending {} := by decide +kernel
  obtain ⟨hcounts, hlog⟩ := hwatched
  obtain ⟨r, hr, hcounts⟩ := Option.map_eq_some_iff.1 hcounts
  obtain ⟨hinitial, hrest⟩ := Prod.mk.inj hcounts
  obtain ⟨hfinal, hstatus⟩ := Prod.mk.inj hrest
  rcases hrun : runOn (opening {}) (run { projectPath := "/p" } mending) with ⟨q, y⟩
  obtain rfl : q = .ok r := by rw [← (run_ok_watched r).2 (ok_of_toOption hr), hrun]
  have hcurrent := (run_current { projectPath := "/p" } mending {} missing mending_faithful rfl hf hlog).2 r y hrun
  exact ⟨r, y, rfl, hinitial, hfinal, (hcurrent (by rw [hstatus]; decide)).1⟩

end Run

end Ratchet
