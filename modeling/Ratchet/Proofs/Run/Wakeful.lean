import Ratchet.Proofs.Backup.Spared
import Ratchet.Proofs.Leading
import Ratchet.Proofs.Run.Sparing

/-!
Crews that do not wait.

The waits of a world are read off its journal. A wakeful crew may do anything but enter waits there: its processes and
containers take their time, but that is theirs and not a wait of the engine. The crew of any settings is wakeful.
-/

namespace Ratchet

open Act

variable {σ : Type}

/-- The waiting that an event tells of, in seconds. -/
def Event.waited? : Event → Option Float
  | sleep seconds => some seconds
  | _ => none

/-- The waits in the journal of a world. -/
def World.waits (w : World) : List Float := w.tells Event.waited?

/-- No waits are entered between two worlds. -/
def World.Awake (w w' : World) : Prop := w'.waits = w.waits

instance : Std.Refl World.Awake := ⟨fun _ => rfl⟩

instance : IsTrans World World.Awake := ⟨fun _ _ _ h h' => Eq.trans h' h⟩

namespace Act.Leads

lemma awake_note {e : Event} (h : e.waited? = none) : Leads World.Awake (Act.note e) := by
  intro w
  change (w.note e).tells Event.waited? = w.tells Event.waited?
  rw [World.tells_note, h]
  exact List.append_nil _

/-- A change of the world that leaves the journal alone enters no waits. -/
lemma awake_modify {f : World → World} (h : ∀ w, (f w).journal = w.journal) :
    Leads World.Awake (modify f : Act PUnit) := by
  intro w
  change (f w).tells Event.waited? = w.tells Event.waited?
  rw [World.tells, h w]
  rfl

lemma awake_edit (g : Tree → Except Fault Tree) : Leads World.Awake (Act.edit g) := .edit fun _ _ _ => rfl

lemma awake_writeBytes (path : String) (b : ByteArray) : Leads World.Awake (Act.writeBytes path b) :=
  .bind .get fun _ => awake_edit _

lemma awake_writeText (path text : String) : Leads World.Awake (Act.writeText path text) := awake_writeBytes _ _

lemma awake_ensureDirectories (path : String) : Leads World.Awake (Act.ensureDirectories path) :=
  .bind .get fun _ => awake_edit _

lemma awake_draw : Leads World.Awake Act.draw :=
  .bind .get fun _ => .bind (awake_modify fun _ => rfl) fun _ => .pure _

lemma awake_process (argv : List String) (dir : String) (limit : Option Datum) (extras : List (String × String)) :
    Leads World.Awake (Act.process argv dir limit extras) :=
  .bind (awake_note rfl) fun _ => .bind .get fun _ => .bind (awake_modify fun _ => rfl) fun _ => .pure _

lemma awake_request (method url : String) (d : Datum) : Leads World.Awake (Act.request method url d) :=
  .bind (awake_note rfl) fun _ => .bind .get fun _ => .bind (awake_modify fun _ => rfl) fun _ => .pure _

end Act.Leads

/-- A crew that never enters waits in the journal. -/
structure Crew.Wakeful (crew : Crew σ) : Prop where
  toolchain : Leads World.Awake crew.toolchain
  measures : ∀ {w i w'}, runOn w crew.toolchain = (.ok i, w') → Leads World.Awake i
  registry : Leads World.Awake crew.registry
  strategies : ∀ {w r w'}, runOn w crew.registry = (.ok r, w') → ∀ e ∈ r.entries, ∀ a,
    Leads World.Awake (e.2.strategy a)
  provider : Leads World.Awake crew.provider
  checkpoint : ∀ label files, Leads (Beside World.Awake) (crew.snapshots.checkpoint label files)
  commit : ∀ label, Leads (Beside World.Awake) (crew.snapshots.commit label)
  revert : Leads (Beside World.Awake) crew.snapshots.revert
  ensure : ∀ bs, crew.backups = some bs → Leads World.Awake bs.ensure
  create : ∀ bs, crew.backups = some bs → ∀ files text, Leads World.Awake (bs.create files text)
  restore : ∀ bs, crew.backups = some bs → ∀ name, Leads World.Awake (bs.restore name)

namespace Registry

lemma awake_run {f : Strategy} {a : Assignment} (h : Leads World.Awake (f a)) :
    Leads World.Awake (Registry.run f a) := by
  refine .bind (.outcome h) fun r => ?_
  rcases r with g | e | label
  · exact .throw _
  · exact .pure _
  · exact .throw _

/-- Handing out assignments enters no waits when no strategy does. -/
lemma awake_apply {r : Registry} {a : Assignment} (h : ∀ e ∈ r.entries, ∀ b, Leads World.Awake (e.2.strategy b)) :
    Leads World.Awake (r.apply a) := by
  unfold apply
  rcases hg : r.get? a.category with _ | e
  · exact .pure _
  · have hs : ∀ b, Leads World.Awake (e.strategy b) := h _ (mem_of_get? hg)
    refine .bind (.awake_note rfl) fun _ => .ite _ (awake_run (hs a)) ?_
    exact .bind (.of_looks (Assignment.looks_digests _ _)) fun _ => .bind (awake_run (hs a)) fun _ =>
      .bind (.of_looks (Assignment.looks_digests _ _)) fun _ => .pure _

end Registry

/-! ### The strategies of settings -/

namespace UnusedImports

lemma awake_editFile (a : Assignment) (ts : List Target) (file : String) : Leads World.Awake (editFile a ts file) := by
  refine .bind .get fun w => ?_
  rcases Workspace.resolve w.here a.root file with _ | path
  · exact .pure _
  · refine .bind (.of_looks (.isFile path)) fun there => .ite _ (.bind (.of_looks (.readExactText path)) fun s => ?_)
      (.pure _)
    exact .ite _ (.pure _) (.ite _ (.pure _) (.bind (.awake_writeText _ _) fun _ => .pure _))

lemma awake_editFiles (a : Assignment) (ts : List Target) (fs : List String) :
    Leads World.Awake (editFiles a ts fs) := by
  induction fs with
  | nil => exact .pure _
  | cons f fs ih => exact .bind (awake_editFile a ts f) fun _ => .bind ih fun _ => .pure _

lemma awake_strategy (a : Assignment) : Leads World.Awake (strategy a) := .map _ (awake_editFiles a _ _)

end UnusedImports

lemma Fixer.awake_strategy (f : Fixer) (a : Assignment) : Leads World.Awake (f.strategy a) := by
  have hdigests : Leads World.Awake (Assignment.digests a.root a.files) := .of_looks (Assignment.looks_digests _ _)
  refine .ite _ (.pure _) (.bind hdigests fun before => .bind (.awake_process _ _ _ _) fun e => ?_)
  rcases e with ⟨code, output, errors⟩ | _ | cause
  · exact .ite _ (.throw _) (.bind hdigests fun _ => .pure _)
  · exact .throw _
  · exact .throw _

lemma Reference.awake_strategy (r : Reference) (a : Assignment) : Leads World.Awake (r.strategy a) := by
  unfold strategy
  split
  · exact UnusedImports.awake_strategy a
  · exact .throw _

/-! ### The toolchain -/

namespace Toolchain

lemma awake_runLocal (t : Toolchain) : Leads World.Awake t.runLocal := by
  refine .bind .get fun w => .bind (.awake_process _ _ _ _) fun e => ?_
  rcases e with ⟨code, output, errors⟩ | _ | cause
  · exact .bind (.bind .get fun _ => .pure _) fun _ => .pure _
  · exact .throw _
  · exact .throw _

lemma awake_awaitContainer (t : Toolchain) (image : String) (start : Float) (run : ContainerRun) :
    Leads World.Awake (t.awaitContainer image start run) := by
  refine .bind (.awake_note rfl) fun _ => .bind (.awake_modify fun _ => rfl) fun _ => ?_
  rcases run.waitFailure with _ | m
  · rcases run.output with m | b
    · exact .throw _
    · exact .pure _
  · exact .bind .get fun w => .ite _ (.throw _) (.throw _)

lemma awake_runContained (t : Toolchain) (image : String) : Leads World.Awake (t.runContained image) := by
  refine .bind .get fun w => .bind .get fun w => ?_
  rcases w.containers with m | run
  · exact .throw _
  · refine .bind (.awake_note rfl) fun _ => ?_
    rcases run.failure with _ | f
    · refine .bind (.outcome (awake_awaitContainer t image _ run)) fun ended => .bind (.awake_note rfl) fun _ => ?_
      exact .ofResult_bind fun _ _ => .bind (.bind .get fun _ => .pure _) fun _ => .pure _
    · exact .throw _

lemma awake_invoke (t : Toolchain) : Leads World.Awake t.invoke := by
  unfold invoke
  rcases t.image with _ | image
  · exact awake_runLocal t
  · exact awake_runContained t image

lemma awake_ofSettings (s : Settings) : Leads World.Awake (ofSettings s) :=
  .bind .get fun _ => .ofResult_bind fun _ _ => .ofResult_bind fun _ _ => .pure _

end Toolchain

/-! ### Backups -/

namespace Archive

variable (a : Archive)

lemma awake_ensure : Leads World.Awake a.ensure := .told _ _ (.awake_ensureDirectories _)

lemma awake_copyIn (dir : String) (fs : List String) : Leads World.Awake (a.copyIn dir fs) := by
  induction fs with
  | nil => exact .pure _
  | cons f fs ih =>
    refine .bind .get fun w => .ofResult_bind fun source _ => .ofResult_bind fun target _ => ?_
    exact .bind (.awake_ensureDirectories _) fun _ => .bind (.awake_edit _) fun _ =>
      .bind (.of_looks (.readBytes _)) fun _ => .bind ih fun _ => .pure _

lemma awake_assemble (now : Instant) (name text : String) (fs : List String) :
    Leads World.Awake (a.assemble now name text fs) :=
  .bind (.awake_edit _) fun _ => .bind (awake_copyIn a _ _) fun _ => .bind (.of_looks (looks_nextSequence a)) fun _ =>
    .ofResult_bind fun _ _ => .bind (.awake_writeText _ _) fun _ => .bind (.awake_edit _) fun _ => .pure _

lemma awake_create (fs : List String) (text : String) : Leads World.Awake (a.create fs text) := by
  refine .bind (awake_ensure a) fun _ => .bind .get fun w => .bind .awake_draw fun n =>
    .bind (.outcome (awake_assemble a _ _ _ _)) fun r => ?_
  rcases r with f | b
  · exact .ite _ (.bind (.bind (.outcome (.awake_edit _)) fun _ => .pure _) fun _ => .throw _) (.throw _)
  · exact .pure _

lemma awake_copyOut (dir : String) (fs : List String) : Leads World.Awake (a.copyOut dir fs) := by
  induction fs with
  | nil => exact .pure _
  | cons f fs ih =>
    exact .bind .get fun w => .ofResult_bind fun target _ => .bind (.awake_ensureDirectories _) fun _ =>
      .bind (.awake_edit _) fun _ => ih

lemma awake_restore (name : String) : Leads World.Awake (a.restore name) := by
  refine .bind (.of_looks (looks_find a name)) fun b => .bind (.of_looks (looks_verify a name)) fun wrong => ?_
  have hrest : Leads World.Awake (do
      Act.told (fun k => k.isSystem || k.isValue) (.wrap .backup ("Restore of " ++ name ++ " failed"))
        (a.copyOut (Path.join b.path filesName) b.files)
      return b) := .bind (.told _ _ (awake_copyOut a _ _)) fun _ => .pure _
  exact .ite _ hrest (.bind (.throw _) fun _ => hrest)

end Archive

/-! ### Snapshots in memory -/

namespace FileSnapshots

variable (s : FileSnapshots)

lemma looks_readAll (fs : List String) : Looks (s.readAll fs) := by
  induction fs with
  | nil => exact .pure _
  | cons f fs ih =>
    exact .bind (.isFile _) fun _ => .ite _ (.bind (.readBytes _) fun _ => .bind ih fun _ => .pure _) ih

lemma awake_removeNew (held : List (String × ByteArray)) (fs : List String) :
    Leads World.Awake (s.removeNew held fs) := by
  induction fs with
  | nil => exact .pure _
  | cons f fs ih =>
    have hrest : ∀ b : Bool, Leads World.Awake (do
        if (held.lookup f).isNone && b then Act.edit (·.remove (Path.join s.workspace f))
        s.removeNew held fs) := fun _ => .ite _ (.bind (.awake_edit _) fun _ => ih) ih
    exact .bind (.of_looks (.isFile _)) hrest

lemma awake_writeBack (held : List (String × ByteArray)) : Leads World.Awake (s.writeBack held) := by
  induction held with
  | nil => exact .pure _
  | cons x r ih =>
    exact .bind (.of_looks (.look _)) fun same => .ite _ ih
      (.bind (.awake_ensureDirectories _) fun _ => .bind (.awake_writeBytes _ _) fun _ => ih)

lemma awake_checkpoint (label : String) (files : List String) :
    Leads (Beside World.Awake) (checkpoint label files) :=
  .bind .get fun _ => .bind (.keep _) fun _ =>
    .bind (.told _ _ (.beside (.of_looks (looks_readAll _ _)))) fun _ => .keep _

lemma awake_revert : Leads (Beside World.Awake) revert := by
  refine .bind .get fun q => ?_
  obtain ⟨s, w⟩ := q
  dsimp only
  rcases s.held with _ | held
  · exact .throw _
  · exact .bind (.told _ _ (.bind (.beside (awake_removeNew s _ _)) fun _ => .beside (awake_writeBack s _)))
      fun _ => .keep _

end FileSnapshots

/-! ### Snapshots in git -/

namespace GitSnapshots

lemma awake_identityOptions : Leads (Beside World.Awake) identityOptions := by
  refine .bind .kept fun s => ?_
  rcases s.identity with _ | options
  · refine .bind (.beside (.awake_process _ _ _ _)) fun e => ?_
    rcases e with ⟨code, output, errors⟩ | _ | cause
    · exact .bind (.pure _) fun _ => .bind (.keep _) fun _ => .pure _
    · exact .bind (.throw _) fun _ => .bind (.keep _) fun _ => .pure _
    · exact .bind (.pure _) fun _ => .bind (.keep _) fun _ => .pure _
  · exact .pure _

lemma awake_git (check : Bool) (args : List String) : Leads (Beside World.Awake) (git check args) := by
  refine .bind awake_identityOptions fun _ => .bind .kept fun s => .bind (.beside (.awake_process _ _ _ _)) fun e => ?_
  rcases e with ⟨code, output, errors⟩ | _ | cause
  · exact .ite _ (.throw _) (.pure _)
  · exact .throw _
  · exact .throw _

lemma awake_stageAndCommit (message : String) : Leads (Beside World.Awake) (stageAndCommit message) :=
  .bind .kept fun _ => .bind (awake_git _ _) fun _ => .bind (awake_git _ _) fun _ =>
    .ite _ (.pure _) (.bind (awake_git _ _) fun _ => .pure _)

lemma awake_head : Leads (Beside World.Awake) head := .bind (awake_git _ _) fun _ => .pure _

lemma looks_readAll (workspace : String) (fs : List String) : Looks (readAll workspace fs) := by
  induction fs with
  | nil => exact .pure _
  | cons f fs ih => exact .bind (.readBytes _) fun _ => .bind ih fun _ => .pure _

lemma awake_readIgnored (files : List String) : Leads (Beside World.Awake) (readIgnored files) :=
  .bind .get fun _ => .ite _ (.pure _)
    (.bind (awake_git _ _) fun _ => .told _ _ (.beside (.of_looks (looks_readAll _ _))))

lemma awake_checkpoint (label : String) (files : List String) :
    Leads (Beside World.Awake) (checkpoint label files) := by
  have hrest : Leads (Beside World.Awake) (do
      let commit ← head
      Act.keep fun s => { s with commit }
      let ignored ← readIgnored files
      Act.keep fun s => { s with ignored }) :=
    .bind awake_head fun _ => .bind (.keep _) fun _ => .bind (awake_readIgnored files) fun _ => .keep _
  exact .bind (awake_stageAndCommit _) fun _ => .bind awake_head fun _ =>
    .ite _ (.bind (awake_git _ _) fun _ => hrest) hrest

lemma awake_record (label : String) : Leads (Beside World.Awake) (record label) :=
  .bind (awake_stageAndCommit _) fun _ => .keep _

lemma awake_writeBack (workspace : String) (held : List (String × ByteArray)) :
    Leads World.Awake (writeBack workspace held) := by
  induction held with
  | nil => exact .pure _
  | cons x r ih => exact .bind (.awake_writeBytes _ _) fun _ => ih

lemma awake_revert : Leads (Beside World.Awake) revert :=
  .bind .kept fun _ => .ite _ (.throw _) (.bind (awake_git _ _) fun _ => .bind (awake_git _ _) fun _ =>
    .bind (.told _ _ (.beside (awake_writeBack _ _))) fun _ => .keep _)

end GitSnapshots

/-! ### The crew of settings -/

lemma Provider.awake_doing {onFiles : Keeping FileSnapshots Unit} {onGit : Keeping GitSnapshots Unit}
    (hfiles : Leads (Beside World.Awake) onFiles) (hgit : Leads (Beside World.Awake) onGit) :
    Leads (Beside World.Awake) (doing onFiles onGit) := by
  refine .bind .kept fun p => ?_
  rcases p with _ | s | s
  · exact .pure _
  · exact .within _ _ hfiles
  · exact .within _ _ hgit

/-- The crew of any settings is wakeful. -/
theorem Crew.wakeful_ofSettings (here : String) (defaults : Defaults) (s : Settings) :
    (ofSettings here defaults s).Wakeful where
  toolchain := .map _ (Toolchain.awake_ofSettings s)
  measures {w i w'} h := by
    have hmap : runOn w (Toolchain.invoke <$> Toolchain.ofSettings s) = (.ok i, w') := h
    rw [runOn_map] at hmap
    rcases ht : (runOn w (Toolchain.ofSettings s)).1 with f | t
    · rw [ht] at hmap
      exact absurd (Prod.mk.inj hmap).1 nofun
    · rw [ht] at hmap
      obtain rfl := Except.ok.inj (Prod.mk.inj hmap).1
      exact t.awake_invoke
  registry := .ofResult _
  strategies {w r w'} h := by
    have hload : runOn w (Act.ofResult (Registry.ofSettings defaults s)) = (.ok r, w') := h
    rw [runOn_ofResult] at hload
    exact Registry.forall_ofSettings (Q := fun f => ∀ a, Leads World.Awake (f a)) UnusedImports.awake_strategy
      Fixer.awake_strategy Reference.awake_strategy (Prod.mk.inj hload).1
  provider := .of_looks (Provider.looks_ofSettings s)
  checkpoint label files :=
    Provider.awake_doing (FileSnapshots.awake_checkpoint label files) (GitSnapshots.awake_checkpoint label files)
  commit label := Provider.awake_doing (.keep _) (GitSnapshots.awake_record label)
  revert := Provider.awake_doing FileSnapshots.awake_revert GitSnapshots.awake_revert
  ensure bs hbs := by
    rw [backups_ofSettings defaults hbs]
    exact Archive.awake_ensure _
  create bs hbs files text := by
    rw [backups_ofSettings defaults hbs]
    exact Archive.awake_create _ files text
  restore bs hbs name := by
    rw [backups_ofSettings defaults hbs]
    exact Archive.awake_restore _ name

end Ratchet
