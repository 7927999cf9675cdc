import Ratchet.Proofs.Run.Setup
import Ratchet.Proofs.Spared

/-!
What the parts of a run leave alone.

Handing a strategy its assignment looks at the tree but changes nothing beside what the strategy changes,
and handing out a report writes to the two files of the run and nowhere else.
-/

namespace Ratchet

open Act

variable {P : Place → Prop}

/-! ### Strategies -/

lemma Assignment.looks_digests (root : String) (fs : List String) : Looks (digests root fs) := by
  induction fs with
  | nil => exact .pure _
  | cons f fs ih =>
    refine .bind (.look id) fun w => ?_
    rcases Workspace.resolve w.here root f with _ | path
    · exact ih
    · have hrest : ∀ d, Looks (do return (f, d) :: (← digests root fs)) := fun d => .bind ih fun _ => .pure _
      exact .bind (.isFile path) fun there => .ite _
        (.bind (.map _ (.map _ (.readBytes path))) hrest) (.bind (.pure _) hrest)

lemma Assignment.spares_digests (root : String) (fs : List String) : Spares P (digests root fs) :=
  (looks_digests root fs).spares

namespace Registry

lemma spares_run {f : Strategy} {a : Assignment} (h : Spares P (f a)) : Spares P (Registry.run f a) := by
  refine .bind (.outcome h) fun r => ?_
  rcases r with g | e | label
  · exact .throw _
  · exact .pure _
  · exact .throw _

/-- A strategy is found among those of its registry. -/
lemma mem_of_get? {r : Registry} {c : String} {e : Registered} (h : r.get? c = some e) : (c, e) ∈ r.entries := by
  obtain ⟨l₁, l₂, hl, -⟩ := List.lookup_eq_some_iff.1 h
  rw [hl]
  exact List.mem_append_right _ List.mem_cons_self

/-- What every strategy leaves alone is left alone. -/
lemma spares_apply {r : Registry} {a : Assignment} (h : ∀ e ∈ r.entries, ∀ b, Spares P (e.2.strategy b)) :
    Spares P (r.apply a) := by
  unfold apply
  rcases hg : r.get? a.category with _ | e
  · exact .pure _
  · have hs : ∀ b, Spares P (e.strategy b) := h _ (mem_of_get? hg)
    refine .bind (.note _) fun _ => .ite _ (spares_run (hs a)) ?_
    exact .bind (Assignment.spares_digests _ _) fun _ => .bind (spares_run (hs a)) fun _ =>
      .bind (Assignment.spares_digests _ _) fun _ => .pure _

end Registry

/-! ### The strategies of settings

Each of them may change the whole tree, but none leaves the directory that paths are seen from. -/

lemma Act.Spares.process (argv : List String) (dir : String) (limit : Option Datum)
    (extras : List (String × String)) : Spares (fun _ => False) (Act.process argv dir limit extras) := fun _ =>
  ⟨rfl, fun _ h => h.elim⟩

lemma Act.Spares.writeAny (path text : String) : Spares (fun _ => False) (Act.writeText path text) :=
  .bind .get fun _ => .edit fun _ _ _ _ h => h.elim

lemma Act.Looks.readExactText (path : String) : Looks (Act.readExactText path) := by
  refine .bind (.readBytes path) fun b => ?_
  rcases Text.decode? b with _ | s
  · exact .throw _
  · exact .pure _

namespace UnusedImports

lemma spares_editFile (a : Assignment) (ts : List Target) (file : String) :
    Spares (fun _ => False) (editFile a ts file) := by
  refine .bind .get fun w => ?_
  rcases Workspace.resolve w.here a.root file with _ | path
  · exact .pure _
  · refine .bind (.isFile path) fun there => .ite _ (.bind (Looks.readExactText path).spares fun text => ?_) (.pure _)
    refine .ite _ (.pure _) (.ite _ (.pure _) (.bind (.writeAny _ _) fun _ => .pure _))

lemma spares_editFiles (a : Assignment) (ts : List Target) (fs : List String) :
    Spares (fun _ => False) (editFiles a ts fs) := by
  induction fs with
  | nil => exact .pure _
  | cons f fs ih => exact .bind (spares_editFile a ts f) fun _ => .bind ih fun _ => .pure _

lemma spares_strategy (a : Assignment) : Spares (fun _ => False) (strategy a) := .map _ (spares_editFiles a _ _)

end UnusedImports

lemma Fixer.spares_strategy (f : Fixer) (a : Assignment) : Spares (fun _ => False) (f.strategy a) := by
  refine .ite _ (.pure _) (.bind (Assignment.spares_digests _ _) fun before => .bind (.process _ _ _ _) fun e => ?_)
  rcases e with ⟨code, output, errors⟩ | _ | cause
  · exact .ite _ (.throw _) (.bind (Assignment.spares_digests _ _) fun _ => .pure _)
  · exact .throw _
  · exact .throw _

lemma Reference.spares_strategy (r : Reference) (a : Assignment) : Spares (fun _ => False) (r.strategy a) := by
  unfold strategy
  split
  · exact UnusedImports.spares_strategy a
  · exact .throw _

namespace Registry

lemma mem_put {c : String} {r : Registered} {e : String × Registered} {es : List (String × Registered)}
    (h : e ∈ put c r es) : e.2 = r ∨ e ∈ es := by
  induction es with
  | nil =>
    rw [List.mem_singleton.1 h]
    exact .inl rfl
  | cons x es ih =>
    rw [put] at h
    split at h
    · rcases List.mem_cons.1 h with rfl | h
      · exact .inl rfl
      · exact .inr (List.mem_cons_of_mem _ h)
    · rcases List.mem_cons.1 h with rfl | h
      · exact .inr List.mem_cons_self
      · exact (ih h).imp_right (List.mem_cons_of_mem _)

section

variable {Q : Strategy → Prop} (hbuiltin : Q UnusedImports.strategy) (hfixer : ∀ f : Fixer, Q f.strategy)
  (hreference : ∀ r : Reference, Q r.strategy)

include hfixer hreference

lemma forall_load {limit : Int} {c : String} {spec : TransformSpec} {e : Registered} (h : load limit c spec = .ok e) :
    Q e.strategy := by
  rcases spec with s | fields
  · rw [load] at h
    rcases hr : Reference.load c s with f | r
    · rw [hr] at h
      exact absurd h nofun
    · rw [hr] at h
      obtain rfl := Except.ok.inj h
      exact hreference r
  · rw [load] at h
    rcases hf : Fixer.ofFields c limit fields with f | fixer
    · rw [hf] at h
      exact absurd h nofun
    · rw [hf] at h
      obtain rfl := Except.ok.inj h
      exact hfixer fixer

lemma forall_withAll {limit : Int} {r r' : Registry} {specs : List (String × TransformSpec)}
    (hr : ∀ e ∈ r.entries, Q e.2.strategy) (h : withAll limit r specs = .ok r') :
    ∀ e ∈ r'.entries, Q e.2.strategy := by
  induction specs generalizing r with
  | nil =>
    obtain rfl := Except.ok.inj h
    exact hr
  | cons x specs ih =>
    obtain ⟨c, spec⟩ := x
    rw [withAll] at h
    rcases hl : load limit c spec with f | s
    · rw [hl] at h
      exact absurd h nofun
    · rw [hl] at h
      refine ih (fun e he => ?_) h
      rcases mem_put he with hs | he
      · rw [hs]
        exact forall_load hfixer hreference hl
      · exact hr e he

include hbuiltin

/-- What holds of the built-in strategy, of foreign commands and of references holds of all strategies that settings
ask for. -/
theorem forall_ofSettings {defaults : Defaults} {s : Settings} {r : Registry} (h : ofSettings defaults s = .ok r) :
    ∀ e ∈ r.entries, Q e.2.strategy := by
  refine forall_withAll hfixer hreference (fun e he => ?_) h
  have hall : e.2 = unusedImports := by
    rcases List.mem_cons.1 he with rfl | he
    · rfl
    · rw [List.mem_singleton.1 he]
  rw [hall]
  exact hbuiltin

end

/-- The strategies that settings ask for keep the directory that paths are seen from. -/
theorem spares_ofSettings {defaults : Defaults} {s : Settings} {r : Registry} (h : ofSettings defaults s = .ok r) :
    ∀ e ∈ r.entries, ∀ a, Spares (fun _ => False) (e.2.strategy a) :=
  forall_ofSettings (Q := fun f => ∀ a, Spares (fun _ => False) (f a)) UnusedImports.spares_strategy
    Fixer.spares_strategy Reference.spares_strategy h

end Registry

/-! ### Snapshots and backups of settings -/

/-- Opening the snapshot provider only looks. -/
lemma Provider.looks_ofSettings (s : Settings) : Looks (ofSettings s) := by
  have hlast : ∀ (w : World) (choice : String), Looks (pure (if choice == "git" then
      Provider.git (.ofWorkspace w.here s.projectPath [s.backupRoot w.here, s.reportFile w.here, s.analysisFile w.here])
    else .files (.ofWorkspace w.here s.projectPath
      [s.backupRoot w.here, s.reportFile w.here, s.analysisFile w.here])) : Act Provider) := fun _ _ => .pure _
  refine .ite _ (.pure _) (.bind (.look id) fun w => .ite _ (.bind (.look _) fun there => .ite _ ?_ ?_) ?_)
  · exact .bind (.pure _) (hlast w)
  · exact .bind (.pure _) (hlast w)
  · exact .bind (.pure _) (hlast w)

/-- The store of backups that settings ask for. -/
lemma Crew.backups_ofSettings {here : String} {s : Settings} (defaults : Defaults) {bs : Backups}
    (h : (ofSettings here defaults s).backups = some bs) :
    bs = (Archive.at here (s.backupRoot here) s.projectPath).operations := by
  change (if (s.backupEnabled && !s.dryRun) = true then _ else none) = some bs at h
  split at h
  · exact (Option.some.inj h).symm
  · exact absurd h nofun

/-! ### Reports -/

lemma Act.Spares.request (method url : String) (d : Datum) : Spares P (Act.request method url d) := fun _ =>
  ⟨rfl, fun _ _ => rfl⟩

namespace Report

lemma spares_writeFile {path : String} (text : String) (hp : Path.isAbsolute path = true)
    (h : ∀ p, P p → p ≠ Path.lexical path) : Spares P (writeFile path text) := by
  refine .bind .get fun w => .bind (.outcome (.bind (.ensureDirectories _) fun _ => ?_)) fun r => ?_
  · refine .writeText text (Path.isAbsolute_absolute path w.rooted) fun p hP => ?_
    rw [Path.lexical_absolute hp]
    exact h p hP
  · rcases r with f | _
    · exact .ite _ (.pure _) (.throw _)
    · exact .pure _

lemma spares_publish (r : Report) (url : String) : Spares P (r.publish url) := by
  refine .ite _ (.bind (.request _ _ _) fun answer => ?_) (.throw _)
  rcases answer with n | _
  · exact .pure _
  · exact .pure _

end Report

/-- A configured path is absolute. -/
lemma Settings.isAbsolute_resolve (s : Settings) {here : String} (path : String)
    (h : Path.isAbsolute here = true) : Path.isAbsolute (s.resolve here path) = true := by
  unfold resolve
  split
  · assumption
  · exact Path.isAbsolute_join _ (Path.isAbsolute_absolute _ h)

/-- Handing out a report writes to the file of the report and to the file of the analysis. -/
lemma Run.spares_deliver {s : Settings} {w : World} (g : Option Grouping) (r : Report)
    (hreport : ∀ p, P p → p ≠ Path.lexical (s.reportFile w.here))
    (hanalysis : ∀ p, P p → p ≠ Path.lexical (s.analysisFile w.here)) :
    World.Agree P w (runOn w (deliver s g r)).2 := by
  have hwrite : Spares P (r.write (s.reportFile w.here)) :=
    Report.spares_writeFile (Json.write r.toDatum) (s.isAbsolute_resolve _ w.rooted) hreport
  have hanalyze : ∀ g, Spares P (Report.writeAnalysis g (some r) (s.analysisFile w.here)) := fun g =>
    Report.spares_writeFile (Report.analysis g (some r)) (s.isAbsolute_resolve _ w.rooted) hanalysis
  have hpost : Spares P (if s.webhook.isEmpty = true then pure () else do let _ ← r.publish s.webhook) :=
    .ite _ (.pure _) (.bind (Report.spares_publish r _) fun _ => .pure _)
  rw [deliver, runOn_bind, runOn_get]
  refine Spares.ite _ (.bind hwrite fun _ => ?_) ?_ w
  · rcases g with _ | g
    · exact hpost
    · exact .bind (hanalyze g) fun _ => hpost
  · exact hpost

end Ratchet
