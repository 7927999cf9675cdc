import Ratchet.Proofs.Run.Sparing
import Ratchet.Proofs.Run.Turns

/-!
Dry runs.

A dry run measures once and then plans: each strategy is handed the diagnostics of its category and told to touch
nothing. None of the strategies of settings does, so the check command is all that is started, and the tree is the one
that it leaves. A plan that fails is a phase like any other.
-/

namespace Ratchet

open Act

variable {α β : Type}

/-! ### Worlds in which nothing is done -/

/-- The process or container that an event tells the start of. -/
def Event.start? : Event → Option Event
  | process argv dir limit extras => some (process argv dir limit extras)
  | container spec => some (container spec)
  | _ => none

/-- The processes and containers that were started, in order. -/
def World.starts (w : World) : List Event := w.tells Event.start?

/-- Between two worlds no file changes and nothing is started. -/
structure World.Calm (w w' : World) : Prop where
  tree : w'.tree = w.tree
  starts : w'.starts = w.starts

instance : Std.Refl World.Calm := ⟨fun _ => ⟨rfl, rfl⟩⟩

instance : IsTrans World World.Calm := ⟨fun _ _ _ h h' => ⟨h'.tree.trans h.tree, h'.starts.trans h.starts⟩⟩

lemma World.starts_note {w : World} {e : Event} (h : e.start? = none) : (w.note e).starts = w.starts := by
  rw [starts, tells_note, h]
  exact List.append_nil _

lemma Act.Leads.calm_note {e : Event} (h : e.start? = none) : Leads World.Calm (Act.note e) := fun _ =>
  ⟨rfl, World.starts_note h⟩

/-! ### Strategies that plan -/

/-- An act that only looks, and that does not fail as the engine does. -/
structure Act.Reads (a : Act α) : Prop where
  looks : Looks a
  foreign : ∀ {w f}, (runOn w a).1 = .error f → f.kind.isEngine = false

namespace Act.Reads

lemma pure (x : α) : Reads (Pure.pure x : Act α) := ⟨.pure x, fun h => absurd h nofun⟩

lemma throw {f : Fault} (h : f.kind.isEngine = false) : Reads (MonadExcept.throw f : Act α) :=
  ⟨.throw f, fun hf => Except.error.inj hf ▸ h⟩

lemma look (g : World → α) : Reads (look g) := ⟨.look g, fun h => absurd h nofun⟩

lemma bind {a : Act α} {k : α → Act β} (h : Reads a) (hk : ∀ x, Reads (k x)) : Reads (a >>= k) := by
  refine ⟨.bind h.looks fun x => (hk x).looks, fun {w f} hf => ?_⟩
  rw [runOn_bind] at hf
  rcases hr : runOn w a with ⟨g | x, w'⟩
  · rw [hr] at hf
    obtain rfl := Except.error.inj hf
    exact h.foreign (congrArg Prod.fst hr)
  · rw [hr] at hf
    exact (hk x).foreign hf

lemma map {a : Act α} (g : α → β) (h : Reads a) : Reads (g <$> a) := by
  rw [map_eq_pure_bind]
  exact h.bind fun _ => .pure _

lemma ite {a b : Act α} (c : Prop) [Decidable c] (h : Reads a) (h' : Reads b) : Reads (if c then a else b) := by
  split
  · exact h
  · exact h'

/-- A refusal about a path is the system's. -/
lemma foreign_about {path : String} {r : Except SystemCause α} {f : Fault} (h : Tree.about path r = .error f) :
    f.kind.isEngine = false := by
  unfold Tree.about at h
  split at h
  · obtain rfl := Except.error.inj h
    rfl
  · rcases r with c | x
    · obtain rfl := Except.error.inj h
      cases c <;> rfl
    · exact absurd h nofun

lemma readBytes (path : String) : Reads (readBytes path) := by
  refine ⟨.readBytes path, fun {w f} hf => ?_⟩
  rw [runOn_readBytes] at hf
  exact foreign_about hf

lemma readExactText (path : String) : Reads (readExactText path) := by
  refine (readBytes path).bind fun b => ?_
  rcases Text.decode? b with _ | s
  · exact .throw rfl
  · exact .pure _

end Act.Reads

/-- A strategy that only reads when it is told to plan. -/
def Strategy.Plans (f : Strategy) : Prop := ∀ a, a.dryRun = true → Reads (f a)

namespace UnusedImports

lemma reads_editFile {a : Assignment} (ha : a.dryRun = true) (ts : List Target) (file : String) :
    Reads (editFile a ts file) := by
  refine .bind (.look id) fun w => ?_
  rcases Workspace.resolve w.here a.root file with _ | path
  · exact .pure _
  · refine .bind (.look _) fun there => .ite _ (.bind (.readExactText path) fun s => ?_) (.pure _)
    rw [ha]
    exact .ite _ (.pure _) (.pure _)

lemma reads_editFiles {a : Assignment} (ha : a.dryRun = true) (ts : List Target) (fs : List String) :
    Reads (editFiles a ts fs) := by
  induction fs with
  | nil => exact .pure _
  | cons f fs ih => exact .bind (reads_editFile ha ts f) fun _ => .bind ih fun _ => .pure _

lemma plans_strategy : Strategy.Plans strategy := fun _ ha => .map _ (reads_editFiles ha _ _)

end UnusedImports

lemma Fixer.plans_strategy (f : Fixer) : Strategy.Plans f.strategy := by
  intro a ha
  rw [strategy, if_pos ha]
  exact .pure _

lemma Reference.plans_strategy (r : Reference) : Strategy.Plans r.strategy := by
  intro a ha
  unfold strategy
  split
  · exact UnusedImports.plans_strategy a ha
  · exact .throw rfl

/-- Handing out an assignment to plan changes and starts nothing, and fails as a transform if it does. -/
def Registry.Plans (r : Registry) (a : Assignment) : Prop :=
  Leads World.Calm (r.apply a) ∧ ∀ w f, (runOn w (r.apply a)).1 = .error f → f.kind.isTransform = true

namespace Registry

/-- A strategy that only reads fails as a transform, if it does. -/
lemma run_reads {f : Strategy} {a : Assignment} (h : Reads (f a)) (w : World) :
    (runOn w (run f a)).2 = w ∧ ∀ g, (runOn w (run f a)).1 = .error g → g.kind = .transform := by
  rw [run, runOn_outcome_bind, h.looks w]
  rcases hr : (runOn w (f a)).1 with g | e | label
  · have hg : g.kind.isEngine = false := h.foreign hr
    simp only [hg, Bool.false_eq_true, if_false, runOn_throw, true_and]
    intro g' hg'
    obtain rfl := Except.error.inj hg'
    unfold Fault.wrap
    split <;> rfl
  · exact ⟨rfl, fun g' hg' => absurd hg' nofun⟩
  · refine ⟨rfl, fun g' hg' => ?_⟩
    obtain rfl := Except.error.inj hg'
    rfl

lemma plans_apply {r : Registry} {a : Assignment} (ha : a.dryRun = true)
    (h : ∀ e ∈ r.entries, Strategy.Plans e.2.strategy) : r.Plans a := by
  rcases hg : r.get? a.category with _ | e
  · have happly : r.apply a = pure {} := by rw [apply, hg]
    rw [Plans, happly]
    exact ⟨.pure _, fun _ _ hf => absurd hf nofun⟩
  · have happly : r.apply a = (do
        Act.note (.strategy a.category (a.diagnostics.map (·.location)) a.dryRun)
        run e.strategy a) := by rw [apply, hg]; simp only [ha, if_true]
    have hreads : Reads (e.strategy a) := h _ (mem_of_get? hg) a ha
    rw [Plans, happly]
    refine ⟨.bind (.calm_note rfl) fun _ w => ?_, fun w f hf => ?_⟩
    · rw [(run_reads hreads w).1]
      exact refl w
    · have hkind := (run_reads hreads _).2 f hf
      rw [hkind]
      rfl

end Registry

namespace Run

variable {σ : Type} {fr : Frame σ} {a : Attempt} {x y z : State σ}

/-! ### Attempts that plan -/

/-- The tree and all that a run has found out are as they were, and nothing was started or backed up. -/
structure Rests (x y : State σ) : Prop where
  calm : x.2.Calm y.2
  initial : y.1.1.initial = x.1.1.initial
  current : y.1.1.current = x.1.1.current
  diagnostics : y.1.1.diagnostics = x.1.1.diagnostics
  skipped : y.1.1.skipped = x.1.1.skipped
  schedule : y.1.1.schedule = x.1.1.schedule
  backups : y.1.1.backups = x.1.1.backups

namespace Rests

lemma refl (x : State σ) : Rests x x := ⟨⟨rfl, rfl⟩, rfl, rfl, rfl, rfl, rfl, rfl⟩

lemma trans (h : Rests x y) (k : Rests y z) : Rests x z :=
  ⟨IsTrans.trans _ _ _ h.1 k.1, k.2.trans h.2, k.3.trans h.3, k.4.trans h.4, k.5.trans h.5, k.6.trans h.6,
    k.7.trans h.7⟩

lemma paused (x : State σ) (s : Settings) : Rests x (x.paused s) := by
  unfold State.paused
  split
  · exact ⟨⟨rfl, World.starts_note rfl⟩, rfl, rfl, rfl, rfl, rfl, rfl⟩
  · exact ⟨⟨rfl, rfl⟩, rfl, rfl, rfl, rfl, rfl, rfl⟩

lemma turn (x : State σ) (c : Category) : Rests x (x.turn c) := ⟨⟨rfl, rfl⟩, rfl, rfl, rfl, rfl, rfl, rfl⟩

lemma logged (x : State σ) (p : Phase) : Rests x (x.logged p) := ⟨⟨rfl, rfl⟩, rfl, rfl, rfl, rfl, rfl, rfl⟩

/-- The diagnostics of a category are those of the last measurement. -/
lemma records (h : Rests x y) (c : Category) : recordsOf y.1.1 c = recordsOf x.1.1 c := by
  rw [recordsOf, h.diagnostics]
  rfl

end Rests

/-- A phase that was only planned, at a count. -/
structure PlannedAt (n : Int) (c : Category) (p : Phase) : Prop where
  category : p.category = c.name
  before : p.before = n
  after : p.after = n
  dryRun : p.dryRun = true

lemma work_planned (hd : fr.settings.dryRun = true) (hr : fr.registry.Plans (a.assignment fr.settings))
    (x : State σ) : ∃ p y, runOn x (work fr a) = (.ok p, y) ∧ Rests x y ∧ y.1.1.phases = x.1.1.phases ∧
      PlannedAt x.1.1.current a.category p := by
  rcases hw : runOn x (work fr a) with ⟨r, y⟩
  obtain ⟨-, hp⟩ | ⟨hd', -⟩ := work_cases hw
  · obtain ⟨u, w, hu, rfl, hc⟩ := plan_cases hp
    have hcalm : x.2.Calm w := by
      have hcalm := hr.1 x.2
      rwa [hu] at hcalm
    have hrests : Rests x ((x.enter .transforming).beside w) := ⟨hcalm, rfl, rfl, rfl, rfl, rfl, rfl⟩
    obtain ⟨e, -, rfl⟩ | ⟨f, -, -, rfl⟩ | ⟨f, rfl, hf, -⟩ := hc
    · exact ⟨_, _, rfl, hrests, rfl, rfl, rfl, rfl, rfl⟩
    · exact ⟨_, _, rfl, hrests, rfl, rfl, rfl, rfl, rfl⟩
    · exact absurd (hr.2 x.2 f (by rw [hu])) (by rw [hf]; exact Bool.false_ne_true)
  · exact absurd hd' (by rw [hd]; decide)

/-- A round that plans makes one phase and leaves its category. -/
lemma round_planned (hd : fr.settings.dryRun = true) (hr : fr.registry.Plans (a.assignment fr.settings))
    (x : State σ) : ∃ p y, runOn x (round fr a) = (.ok none, y) ∧ Rests x y ∧
      y.1.1.phases = x.1.1.phases ++ [p] ∧ PlannedAt x.1.1.current a.category p := by
  obtain ⟨q, u, hw, hrests, hphases, hq⟩ := work_planned hd hr (x.paused fr.settings)
  have hpaused := Rests.paused x fr.settings
  rcases hround : runOn x (round fr a) with ⟨r, y⟩
  obtain ⟨v, z, hz, hc⟩ := round_cases hround
  obtain ⟨r', d, hw', rfl⟩ := attempt_cases hz
  obtain ⟨rfl, rfl⟩ := Prod.mk.inj (hw.symm.trans hw')
  obtain ⟨f, hf, -, -⟩ | ⟨p, hp, rfl, rfl⟩ := hc
  · exact absurd hf nofun
  · obtain rfl := Except.ok.inj hp
    have hends : endsCategory (u.logged { q with duration := d }).1.1 { q with duration := d } = true := by
      simp [endsCategory, hq.dryRun]
    refine ⟨{ q with duration := d }, _, by rw [hends]; rfl, (hpaused.trans hrests).trans (.logged _ _), ?_,
      ⟨hq.category, ?_, ?_, hq.dryRun⟩⟩
    · change u.1.1.phases ++ _ = _
      rw [hphases, (paused_steady x fr.settings).phases]
    · exact hq.before.trans (congrArg Int.ofNat hpaused.current)
    · exact hq.after.trans (congrArg Int.ofNat hpaused.current)

variable {c : Category} {ss : List Scheduled}

/-- The turn of a category with diagnostics makes one phase in a dry run. -/
lemma remedy_planned (hd : fr.settings.dryRun = true) (hr : ∀ a, fr.registry.Plans (Attempt.assignment a fr.settings))
    (hlimit : 0 < fr.settings.maxIterations.toNat) (hc : recordsOf x.1.1 c ≠ []) :
    ∃ p y, runOn x (remedy fr c) = (.ok (), y) ∧ Rests x y ∧ y.1.1.phases = x.1.1.phases ++ [p] ∧
      PlannedAt x.1.1.current c p := by
  obtain ⟨left, hleft⟩ := Nat.exists_eq_succ_of_ne_zero hlimit.ne'
  obtain ⟨p, y, hround, hrests, hphases, hp⟩ :=
    round_planned (a := ⟨c, 1, recordsOf x.1.1 c⟩) hd (hr _) (x.turn c)
  rcases hrem : runOn x (remedy fr c) with ⟨r, z⟩
  obtain ⟨he, -⟩ | ⟨-, ha⟩ := remedy_cases hrem
  · exact absurd (List.isEmpty_iff.1 he) hc
  · rw [hleft, attempts, runOn_bind_ok _ hround] at ha
    obtain ⟨rfl, rfl⟩ := Prod.mk.inj ha
    exact ⟨p, y, rfl, (Rests.turn x c).trans hrests, hphases, hp⟩

/-- Phases that were planned at a count, one for each scheduled category. -/
structure Plans (n : Int) (ss : List Scheduled) (ps : List Phase) : Prop where
  categories : ps.map (·.category) = ss.map (·.category.name)
  counts : ∀ p ∈ ps, p.before = n ∧ p.after = n ∧ p.dryRun = true

lemma Plans.cons {n : Int} {s : Scheduled} {p : Phase} {ps : List Phase} (hp : PlannedAt n s.category p)
    (h : Plans n ss ps) : Plans n (s :: ss) (p :: ps) where
  categories := by rw [List.map_cons, List.map_cons, hp.category, h.categories]
  counts := List.forall_mem_cons.2 ⟨⟨hp.before, hp.after, hp.dryRun⟩, h.counts⟩

/-- A dry run makes one phase for each scheduled category, by induction on the schedule. -/
theorem remedyAll_planned (hd : fr.settings.dryRun = true)
    (hr : ∀ a, fr.registry.Plans (Attempt.assignment a fr.settings)) (hlimit : 0 < fr.settings.maxIterations.toNat)
    (h0 : x.1.1.current ≠ 0) (hss : ∀ s ∈ ss, recordsOf x.1.1 s.category ≠ []) :
    ∃ ps y, runOn x (remedyAll fr ss) = (.ok (), y) ∧ Rests x y ∧ y.1.1.phases = x.1.1.phases ++ ps ∧
      Plans x.1.1.current ss ps := by
  induction ss generalizing x with
  | nil => exact ⟨[], x, rfl, .refl x, (List.append_nil _).symm, rfl, fun p hp => absurd hp List.not_mem_nil⟩
  | cons s ss ih =>
    obtain ⟨p, u, hu, hrests, hphases, hp⟩ := remedy_planned hd hr hlimit (hss s List.mem_cons_self)
    have hss' : ∀ t ∈ ss, recordsOf u.1.1 t.category ≠ [] := fun t ht => by
      rw [hrests.records]
      exact hss t (List.mem_cons_of_mem s ht)
    obtain ⟨ps, y, hy, hrests', hphases', hps⟩ := ih (by rw [hrests.current]; exact h0) hss'
    refine ⟨p :: ps, y, ?_, hrests.trans hrests', ?_, .cons hp (by rwa [hrests.current] at hps)⟩
    · have hgo : (x.1.1.current == 0) = false := by simpa using h0
      simp only [remedyAll, runOn_bind, runOn_progress, hgo, Bool.false_eq_true, if_false, hu]
      exact hy
    · rw [hphases', hphases, List.append_assoc, List.singleton_append]

end Run

/-! ### The check command -/

namespace Toolchain

/-- The start that the journal tells of when the toolchain runs. -/
def start (t : Toolchain) : Event :=
  match t.image with
  | none => .process t.argv t.workspace (some t.limit) []
  | some image => .container ⟨image, t.argv, t.workspace⟩

/-- The tree after the toolchain has run: the process may change it, and a container may not. -/
def leaves (t : Toolchain) (w : World) : Tree :=
  match t.image with
  | none => Change.applyAll w.tree (w.processes.headD {}).changes
  | some _ => w.tree

lemma looks_ofSettings (s : Settings) : Looks (ofSettings s) :=
  .bind (.look id) fun _ => .bind (.ofResult _) fun _ => .bind (.ofResult _) fun _ => .pure _

lemma calm_secondsSince (start : Float) : Leads World.Calm (secondsSince start) := .bind .get fun _ => .pure _

lemma calm_awaitContainer (t : Toolchain) (image : String) (start : Float) (run : ContainerRun) :
    Leads World.Calm (t.awaitContainer image start run) := by
  refine .bind (.calm_note rfl) fun _ => .bind (fun w => ⟨rfl, rfl⟩) fun _ => ?_
  rcases run.waitFailure with _ | m
  · rcases run.output with m | b
    · exact .throw _
    · exact .pure _
  · exact .bind .get fun w => .ite _ (.throw _) (.throw _)

/-- A run of the toolchain in two worlds: the tree is the one that it leaves, and it was started once. -/
structure Ran (t : Toolchain) (v v' : World) : Prop where
  tree : v'.tree = t.leaves v
  starts : v'.starts = v.starts ++ [t.start]

/-- What follows the start of a process or container is calm. -/
lemma Ran.calm {t : Toolchain} {v u v' : World} (h : t.Ran v u) (k : u.Calm v') : t.Ran v v' :=
  ⟨k.tree.trans h.tree, k.starts.trans h.starts⟩

variable {t : Toolchain} {v v' : World} {o : Observation}

lemma ran_local (hi : t.image = none) (h : runOn v t.runLocal = (.ok o, v')) : t.Ran v v' := by
  rw [runLocal, runOn_bind_ok _ runOn_get] at h
  obtain ⟨e, u, hu, h⟩ := of_bind_ok h
  have hran : t.Ran v u := by
    rw [← (Prod.mk.inj hu).2]
    refine ⟨by rw [leaves, hi]; rfl, ?_⟩
    rw [start, hi]
    exact World.tells_note Event.start? v _
  rcases e with ⟨code, output, errors⟩ | _ | cause
  · have hcalm := Leads.bind (calm_secondsSince v.clock)
      (fun seconds => Leads.pure (R := World.Calm) (⟨code, output, seconds, t.argv⟩ : Observation)) u
    rw [show runOn u _ = (.ok o, v') from h] at hcalm
    exact hran.calm hcalm
  · exact absurd (Prod.mk.inj h).1 nofun
  · exact absurd (Prod.mk.inj h).1 nofun

/-- What a container that runs comes to is calm, its removal included. -/
lemma calm_observed (t : Toolchain) (image : String) (began : Float) (run : ContainerRun) : Leads World.Calm (do
      let ended ← Act.outcome (t.awaitContainer image began run)
      Act.note .containerRemoval
      let (code, b) ← Act.ofResult ended
      return (⟨code, Text.decodeLenient b, ← secondsSince began, t.argv⟩ : Observation)) :=
  .bind (.outcome (calm_awaitContainer t image _ run)) fun _ => .bind (.calm_note rfl) fun _ =>
    .ofResult_bind fun _ _ => .bind (calm_secondsSince _) fun _ => .pure _

lemma ran_contained {image : String} (hi : t.image = some image) (h : runOn v (t.runContained image) = (.ok o, v')) :
    t.Ran v v' := by
  rw [runContained, runOn_bind_ok _ runOn_get, runOn_bind_ok _ runOn_get] at h
  rcases hc : v.containers with m | run
  · rw [hc] at h
    cases (Prod.mk.inj h).1
  · rw [hc] at h
    obtain ⟨_, u, hu, h⟩ := of_bind_ok h
    have hran : t.Ran v u := by
      rw [← (Prod.mk.inj hu).2]
      refine ⟨by rw [leaves, hi]; rfl, ?_⟩
      rw [start, hi]
      exact World.tells_note Event.start? v _
    rcases hf : run.failure with _ | f
    · rw [hf] at h
      have hcalm := calm_observed t image v.clock run u
      rw [show runOn u _ = (.ok o, v') from h] at hcalm
      exact hran.calm hcalm
    · rw [hf] at h
      cases (Prod.mk.inj h).1

/-- A toolchain that shows something was started once, and left the tree as it says. -/
lemma ran_invoke (h : runOn v t.invoke = (.ok o, v')) : t.Ran v v' := by
  unfold invoke at h
  rcases hi : t.image with _ | image
  · rw [hi] at h
    exact ran_local hi h
  · rw [hi] at h
    exact ran_contained hi h

end Toolchain

/-- A report that tells of plans only. -/
structure Report.Planned (r : Report) : Prop where
  dryRun : r.dryRun = true
  phases : r.phases.map (·.category) = r.schedule.map (·.name)
  counts : ∀ p ∈ r.phases, p.before = r.initial ∧ p.after = r.initial ∧ p.dryRun = true
  skipped : r.skipped = []
  backups : r.backups = []
  final : r.final = r.initial
  status : r.status = "unchanged"

namespace Run

variable {σ : Type} {s : Settings} {w : World}

/-- What the setup of a dry run leaves: a measurement that found something, and strategies that plan. -/
structure SetUp (s : Settings) (w : World) (t : Toolchain) (fr : Frame Provider) (z : Outer Provider) : Prop where
  toolchain : runOn w (Toolchain.ofSettings s) = (.ok t, w)
  ran : t.Ran w z.2
  settings : fr.settings = s
  plans : ∀ a, a.dryRun = true → fr.registry.Plans a
  unlogged : Unlogged z.1.1
  backups : z.1.1.backups = []
  initial : z.1.1.initial = z.1.1.current
  found : z.1.1.current ≠ 0

/-- A measurement runs the toolchain once. -/
lemma ran_measure {t : Toolchain} {w' : World} {ds : List Diagnostic}
    (h : runOn w (measure s t.invoke) = (.ok ds, w')) : t.Ran w w' := by
  rw [measure, Act.note, runOn_bind_ok _ (runOn_modify _)] at h
  obtain ⟨o, u, hu, h⟩ := of_bind_ok h
  have hran := Toolchain.ran_invoke hu
  obtain rfl : u = w' := by
    rw [runOn_bind_ok _ runOn_get, runOn_ofResult] at h
    exact (Prod.mk.inj h).2
  refine ⟨hran.tree.trans ?_, hran.starts.trans ?_⟩
  · unfold Toolchain.leaves
    split <;> rfl
  · rw [World.starts_note rfl]

lemma prepare_setUp {here : String} {defaults : Defaults} {fr : Frame Provider} {held : Provider} {z : Outer Provider}
    (hd : s.dryRun = true)
    (h : runOn (started (opening w)) (prepare s (Crew.ofSettings here defaults s)) = (.ok (some (fr, held)), z)) :
    ∃ t, SetUp s w t fr z := by
  have hlog := unlogged_prepare h
  obtain ⟨m, u, v, hu, hv, rfl⟩ := prepare_ok h
  obtain ⟨r, w₁, hw₁, ⟨_, -, hr, -⟩ | ⟨i, r', w₂, rfl, hm, ⟨_, -, hr, -⟩ | ⟨ds, rfl, rfl, hr⟩⟩⟩ := analyze_cases hu
  · exact absurd hr nofun
  · exact absurd hr nofun
  have hne : ds ≠ [] := by
    rintro rfl
    exact absurd (Except.ok.inj hr) nofun
  obtain ⟨t, ht⟩ : ∃ t, runOn w (Toolchain.ofSettings s) = (.ok t, w) ∧ i = t.invoke ∧ w₁ = w := by
    have hmap : runOn w (Toolchain.invoke <$> Toolchain.ofSettings s) = (.ok i, w₁) := hw₁
    rw [runOn_map, Toolchain.looks_ofSettings s w] at hmap
    obtain ⟨hi, hw⟩ := Prod.mk.inj hmap
    rcases ht : (runOn w (Toolchain.ofSettings s)).1 with f | t
    · rw [ht] at hi
      exact absurd hi nofun
    · rw [ht] at hi
      exact ⟨t, Prod.ext ht (Toolchain.looks_ofSettings s w), (Except.ok.inj hi).symm, hw.symm⟩
  obtain ⟨ht, rfl, rfl⟩ := ht
  have hran : t.Ran w₁ w₂ := ran_measure hm
  obtain ⟨hs, -, -, u₁, u₂, hregistry, hprovider, hrest⟩ := complete_ok hv
  have hloaded : runOn w₂ (Act.ofResult (Registry.ofSettings defaults s)) = (.ok fr.registry, u₁) := hregistry
  rw [runOn_ofResult] at hloaded
  obtain ⟨hstrategies, rfl⟩ := Prod.mk.inj hloaded
  obtain rfl : u₂ = w₂ := (Provider.looks_ofSettings s).eq hprovider
  obtain rfl : v = u₂ := by
    obtain ⟨-, rfl⟩ | ⟨bs, hbs, -⟩ := hrest
    · rfl
    · change (if (s.backupEnabled && !s.dryRun) = true then _ else none) = some bs at hbs
      rw [hd, Bool.not_true, Bool.and_false, if_neg Bool.false_ne_true] at hbs
      exact absurd hbs nofun
  exact ⟨t, ht, hran, hs, fun a ha => Registry.plans_apply ha (Registry.forall_ofSettings
    UnusedImports.plans_strategy Fixer.plans_strategy Reference.plans_strategy hstrategies), hlog, rfl, rfl,
    fun h0 => hne (List.length_eq_zero_iff.1 h0)⟩

/-- A report that can be sent is posted once, whatever the server answers. -/
lemma publish_sendable {r : Report} (hr : r.sendable = true) (url : String) (v : World) :
    ∃ b v', v.Calm v' ∧ runOn v (r.publish url) = (.ok b, v') := by
  have hsent : runOn v (Act.request "POST" url r.toDatum) = (.ok (v.responses.headD (.status 200)),
      { v.note (.request "POST" url r.toDatum) with responses := v.responses.tail }) := rfl
  rw [Report.publish, if_pos hr, runOn_bind_ok _ hsent]
  rcases v.responses.headD (.status 200) with n | _
  · refine ⟨_, _, ?_, rfl⟩
    exact ⟨rfl, World.starts_note (w := v) (e := .request "POST" url r.toDatum) rfl⟩
  · refine ⟨_, _, ?_, rfl⟩
    exact ⟨rfl, World.starts_note (w := v) (e := .request "POST" url r.toDatum) rfl⟩

/-- The report of a dry run is posted, if it is to be and can be, and it is written nowhere. -/
lemma deliver_planned {r : Report} (hr : r.dryRun = true) (g : Option Grouping) (v : World) :
    ∃ v', v.Calm v' ∧ runOn v (deliver s g r) = (if s.webhook.isEmpty || r.sendable then .ok ()
      else .error (.value "Out of range float values are not JSON compliant"), v') := by
  have hno : ¬(r.status != "clean" && !r.dryRun) = true := by simp [hr]
  rw [deliver, runOn_bind_ok _ runOn_get]
  dsimp only
  rw [if_neg hno]
  by_cases hw : s.webhook.isEmpty = true
  · exact ⟨v, refl v, by simp [hw]⟩
  · simp only [hw, Bool.false_eq_true, if_false, Bool.false_or]
    by_cases hs : r.sendable = true
    · obtain ⟨b, v', hcalm, hpost⟩ := publish_sendable hs s.webhook v
      exact ⟨v', hcalm, by rw [runOn_bind_ok _ hpost, if_pos hs]; rfl⟩
    · exact ⟨v, refl v, by simp [Report.publish, hs]⟩

/-- The report of what a dry run has gone through tells of plans only. -/
lemma planned_report {p : Progress} {ss : List Scheduled} (hd : s.dryRun = true) (hstage : p.stage ≠ .failed)
    (hschedule : p.schedule = ss) (hskipped : p.skipped = []) (hbackups : p.backups = [])
    (hinitial : p.initial = p.current) (h0 : p.current ≠ 0)
    (hphases : Plans p.current ss p.phases) (v : World) :
    (report s p v).Planned where
  dryRun := hd
  phases := by
    change p.phases.map _ = (p.schedule.map ScheduleRow.ofScheduled).map _
    rw [hphases.categories, hschedule, List.map_map]
    rfl
  counts := by
    change ∀ q ∈ p.phases, q.before = (p.initial : Int) ∧ q.after = (p.initial : Int) ∧ q.dryRun = true
    rw [hinitial]
    exact hphases.counts
  skipped := hskipped
  backups := hbackups
  final := congrArg Int.ofNat hinitial.symm
  status := by
    change Report.statusOf p.initial p.current (p.stage == .failed) = _
    rw [hinitial]
    have hzero : ((p.current : Int) == 0) = false := by simpa using h0
    have hfailed : (p.stage == .failed) = false := by simpa using hstage
    simp [Report.statusOf, hzero, hfailed]

/-- Settings of a dry run. -/
def planningSettings : Settings where
  projectPath := "/p"
  dryRun := true
  toolchainCommand := .words ["check"]

/-- A world in which the check command writes a file and finds a diagnostic. -/
def checkedWorld : World where
  processes := [{
    changes := [⟨"/p/check.log", some ⟨#[111]⟩⟩]
    ending := .exit 1 "a.ts(1,1): error TS2304: x" "" }]

end Run

end Ratchet
