import Ratchet.Proofs.Instant
import Ratchet.Proofs.Schema
import Ratchet.Proofs.Spared
import Ratchet.Report.Delivery

/-!
Reports that are written and read again.

A report is a document of texts, numbers, words, lists and mappings, so what is written of it is read back field by
field. The file that holds it stands where the normal form of its path leads. It is found there again under every spelling
of the path that can be followed in the tree; a spelling that climbs out of a directory that is not there cannot.
-/

namespace Ratchet

open Act

/-! ### What can be written -/

/-- What makes a phase one that is read back: its figures can be written. -/
structure Phase.Sound (p : Phase) : Prop where
  iteration : Number.isWritable p.iteration = true
  before : Number.isWritable p.before = true
  after : Number.isWritable p.after = true
  improvement : Number.isWritable p.improvement = true
  increase : Number.isWritable p.increase = true
  duration : Number.isWritable p.duration = true
  applied : Number.isWritable p.applied = true

/-- What makes a row one that is read back: its priority is finite and its figures can be written. -/
structure ScheduleRow.Sound (r : ScheduleRow) : Prop where
  priority : Report.isFinite r.priority = true
  diagnostics : Number.isWritable r.diagnostics = true
  files : Number.isWritable r.files = true

/-- What makes a report one that is read back: its time is one of the calendar in universal time, its numbers are
finite, its figures can be written, and each category that is left is counted once. -/
structure Report.Sound (r : Report) : Prop where
  inCalendar : Instant.inCalendar r.timestamp.reading = true
  universal : r.timestamp.offset = some 0
  duration : Report.isFinite r.duration = true
  successRate : Report.isFinite r.successRate = true
  initial : Number.isWritable r.initial = true
  final : Number.isWritable r.final = true
  improvement : Number.isWritable r.improvement = true
  maxIncrease : Number.isWritable r.maxIncrease = true
  phases : ∀ p ∈ r.phases, p.Sound
  schedule : ∀ s ∈ r.schedule, s.Sound
  categories : (r.remaining.map (·.1)).Nodup
  counts : ∀ x ∈ r.remaining, Number.isWritable x.2 = true

namespace Json

variable {n : Nat} {k : Int} {x : Float}

lemma readBack_figure (n : Nat) (h : Number.isWritable k = true) : ReadBack n (.int k) :=
  readBack_int n (of_decide_eq_true h)

lemma readBack_finite (n : Nat) (h : Report.isFinite x = true) : ReadBack n (.float x) := by
  unfold Report.isFinite at h
  split at h
  · rename_i hx
    exact readBack_float n hx
  · exact absurd h nofun

lemma readBack_text? (n : Nat) (s : Option String) : ReadBack n (Datum.ofText? s) := by
  cases s with
  | none => exact readBack_null n
  | some s => exact readBack_text n s

lemma readBack_texts (n : Nat) (xs : List String) : ReadBack (n + 1) (Datum.ofTexts xs) :=
  readBack_list fun y hy => by
    obtain ⟨s, -, rfl⟩ := List.mem_map.1 hy
    exact readBack_text n s

lemma readBack_counts (n : Nat) {xs : List (String × Int)} (hkeys : (xs.map (·.1)).Nodup)
    (hcounts : ∀ x ∈ xs, Number.isWritable x.2 = true) :
    ReadBack (n + 1) (Datum.ofFields (xs.map fun (k, n) => (k, .int n))) := by
  refine readBack_ofFields ?_ fun y hy => ?_
  · rw [List.map_map]
    exact hkeys
  · obtain ⟨x, hx, rfl⟩ := List.mem_map.1 hy
    exact readBack_figure n (hcounts x hx)

end Json

/-! ### Phases and rows -/

lemma Schema.nullable_text (s : Option String) : Schema.nullable Schema.text (Datum.ofText? s) = .ok s := by
  cases s <;> rfl

namespace Phase

variable {p : Phase}

lemma Sound.readBack (h : p.Sound) : Json.ReadBack 2 p.toDatum := by
  refine Json.readBack_ofFields ?_ ?_
  · show ["category", "iteration", "before_count", "after_count", "improvement", "increase", "reverted", "duration_ms",
      "error", "transform_error", "timeout", "rolled_back", "applied", "files_changed", "backup_id", "dry_run"].Nodup
    decide
  · simp only [List.forall_mem_cons]
    exact ⟨Json.readBack_text 1 _, Json.readBack_figure 1 h.iteration, Json.readBack_figure 1 h.before,
      Json.readBack_figure 1 h.after, Json.readBack_figure 1 h.improvement, Json.readBack_figure 1 h.increase,
      Json.readBack_bool 1 _, Json.readBack_figure 1 h.duration, Json.readBack_text? 1 _, Json.readBack_text? 1 _,
      Json.readBack_bool 1 _, Json.readBack_bool 1 _, Json.readBack_figure 1 h.applied, Json.readBack_texts 0 _,
      Json.readBack_text? 1 _, Json.readBack_bool 1 _, List.forall_mem_nil _⟩

/-- A phase is read as it was written. -/
lemma ofEntries_toDatum (p : Phase) : Schema.record ofEntries p.toDatum = .ok p := by
  change ofEntries (Json.entries _) = _
  generalize hes : Json.entries _ = es
  have herror : Schema.field es "error" none (Schema.nullable Schema.text) = .ok p.error :=
    Schema.field_ok (by rw [← hes]; rfl) (Schema.nullable_text p.error)
  have htransform : Schema.field es "transform_error" none (Schema.nullable Schema.text) = .ok p.transformError :=
    Schema.field_ok (by rw [← hes]; rfl) (Schema.nullable_text p.transformError)
  have hfiles : Schema.field es "files_changed" [] (Schema.list Schema.text) = .ok p.filesChanged :=
    Schema.field_ok (by rw [← hes]; rfl) (Schema.list_texts p.filesChanged)
  have hbackup : Schema.field es "backup_id" none (Schema.nullable Schema.text) = .ok p.backup :=
    Schema.field_ok (by rw [← hes]; rfl) (Schema.nullable_text p.backup)
  rw [ofEntries, herror, htransform, hfiles, hbackup, ← hes]
  rfl

end Phase

namespace ScheduleRow

variable {r : ScheduleRow}

lemma Sound.readBack (h : r.Sound) : Json.ReadBack 2 r.toDatum := by
  refine Json.readBack_ofFields ?_ ?_
  · show ["name", "priority", "root_cause", "strategy_id", "diagnostic_count", "file_count"].Nodup
    decide
  · simp only [List.forall_mem_cons]
    exact ⟨Json.readBack_text 1 _, Json.readBack_finite 1 h.priority, Json.readBack_text 1 _, Json.readBack_text 1 _,
      Json.readBack_figure 1 h.diagnostics, Json.readBack_figure 1 h.files, List.forall_mem_nil _⟩

/-- A row is read as it was written. -/
lemma ofEntries_toDatum (r : ScheduleRow) : Schema.record ofEntries r.toDatum = .ok r := rfl

end ScheduleRow

namespace Report

variable {r : Report} {w w' : World} {path text : String}

/-! ### Documents -/

lemma Sound.readBack (h : r.Sound) : Json.ReadBack 4 r.toDatum := by
  refine Json.readBack_ofFields ?_ ?_
  · show ["timestamp", "duration_seconds", "project_path", "status", "dry_run", "initial_errors", "final_errors",
      "total_improvement", "success_rate", "max_allowed_increase", "phases", "schedule", "recommendations",
      "remaining_by_category", "backups", "skipped_categories", "error"].Nodup
    decide
  have hphases : Json.ReadBack 3 (.list (r.phases.map Phase.toDatum)) := Json.readBack_list fun y hy => by
    obtain ⟨p, hp, rfl⟩ := List.mem_map.1 hy
    exact (h.phases p hp).readBack
  have hschedule : Json.ReadBack 3 (.list (r.schedule.map ScheduleRow.toDatum)) := Json.readBack_list fun y hy => by
    obtain ⟨s, hs, rfl⟩ := List.mem_map.1 hy
    exact (h.schedule s hs).readBack
  have hremaining := Json.readBack_counts 2 h.categories h.counts
  simp only [List.forall_mem_cons]
  exact ⟨Json.readBack_text 3 _, Json.readBack_finite 3 h.duration, Json.readBack_text 3 _, Json.readBack_text 3 _,
    Json.readBack_bool 3 _, Json.readBack_figure 3 h.initial, Json.readBack_figure 3 h.final,
    Json.readBack_figure 3 h.improvement, Json.readBack_finite 3 h.successRate, Json.readBack_figure 3 h.maxIncrease,
    hphases, hschedule, Json.readBack_texts 2 _, hremaining, Json.readBack_texts 2 _, Json.readBack_texts 2 _,
    Json.readBack_text? 3 _, List.forall_mem_nil _⟩

/-- A report is read as it was written. -/
lemma Sound.ofEntries_toDatum (h : r.Sound) : Schema.record ofEntries r.toDatum = .ok r := by
  change ofEntries (Json.entries _) = _
  generalize hes : Json.entries _ = es
  have htime : Schema.required es "timestamp" Schema.instant = .ok r.timestamp :=
    Schema.required_ok (by rw [← hes]; rfl) (Schema.instant_text h.inCalendar h.universal)
  have hphases : Schema.field es "phases" [] (Schema.list (Schema.record Phase.ofEntries)) = .ok r.phases :=
    Schema.field_ok (by rw [← hes]; rfl) (Schema.list_map fun p _ => Phase.ofEntries_toDatum p)
  have hschedule : Schema.field es "schedule" [] (Schema.list (Schema.record ScheduleRow.ofEntries)) = .ok r.schedule :=
    Schema.field_ok (by rw [← hes]; rfl) (Schema.list_map fun s _ => ScheduleRow.ofEntries_toDatum s)
  have hadvice : Schema.field es "recommendations" [] (Schema.list Schema.text) = .ok r.recommendations :=
    Schema.field_ok (by rw [← hes]; rfl) (Schema.list_texts r.recommendations)
  have hremaining : Schema.field es "remaining_by_category" [] (Schema.mapping Schema.int) = .ok r.remaining :=
    Schema.field_ok (by rw [← hes]; rfl) (Schema.mapping_map fun _ _ => rfl)
  have hbackups : Schema.field es "backups" [] (Schema.list Schema.text) = .ok r.backups :=
    Schema.field_ok (by rw [← hes]; rfl) (Schema.list_texts r.backups)
  have hskipped : Schema.field es "skipped_categories" [] (Schema.list Schema.text) = .ok r.skipped :=
    Schema.field_ok (by rw [← hes]; rfl) (Schema.list_texts r.skipped)
  have herror : Schema.field es "error" none (Schema.nullable Schema.text) = .ok r.error :=
    Schema.field_ok (by rw [← hes]; rfl) (Schema.nullable_text r.error)
  rw [ofEntries, htime, hphases, hschedule, hadvice, hremaining, hbackups, hskipped, herror, ← hes]
  rfl

/-- **The text of a report holds the report.** -/
theorem ofText_write (h : r.Sound) : ofText (Json.write r.toDatum) = .ok (some r) := by
  have hread := h.ofEntries_toDatum
  obtain ⟨es, hes⟩ : ∃ es, r.toDatum = .map es := ⟨_, rfl⟩
  rw [ofText, Json.read_write h.readBack (by decide)]
  rw [hes] at hread ⊢
  dsimp only
  rw [show ofEntries es = .ok r from hread]

/-! ### Files -/

/-- A file that was written stands where the normal form of its path leads, and is found there. -/
lemma of_writeFile_true (h : runOn w (writeFile path text) = (.ok true, w')) :
    w'.here = w.here ∧ w'.tree.isFile (Path.absolute w.here path) = true ∧
      w'.tree.get? (Path.lexical (Path.absolute w.here path)) = some (.file (Text.encode text)) := by
  have hclear := Path.clear_absolute path w.rooted
  rw [writeFile, runOn_bind_ok _ runOn_get, runOn_outcome_bind] at h
  rcases hout : runOn w (do
    ensureDirectories (Path.parent (Path.absolute w.here path))
    writeText (Path.absolute w.here path) text) with ⟨f | ⟨⟩, u⟩
  · rw [hout] at h
    dsimp only at h
    rw [runOn_ite, runOn_pure, runOn_throw] at h
    split at h
    · exact absurd (Except.ok.inj (Prod.mk.inj h).1) (by decide)
    · exact absurd (Prod.mk.inj h).1 nofun
  · rw [hout] at h
    obtain rfl := (Prod.mk.inj h).2
    obtain ⟨t, -, hwrite⟩ := of_ensureDirectories_bind_ok hout
    rw [writeText, runOn_writeBytes, World.located_absolute hclear.absolute] at hwrite
    obtain ⟨t', ht', rfl⟩ := of_edit_ok hwrite
    obtain ⟨-, hwrote⟩ := Tree.write_ok ht'
    have hfile := hwrote.after (Path.lexical (Path.absolute w.here path))
    rw [if_pos rfl] at hfile
    have hlast := Path.getLast?_components_normal (Path.isAbsolute_join path w.rooted) hwrote.nonempty
    exact ⟨rfl, Tree.isFile_iff.2 ⟨_, _, Tree.stat_eq.2 ⟨Tree.place_of_get? hclear hfile (.inr hlast), hfile⟩⟩, hfile⟩

/-- What a path leads to is what its normal form leads to. -/
lemma lexical_located (hne : path ≠ "") :
    Path.lexical (w.located path) = Path.lexical (Path.absolute w.here path) := by
  rw [World.located, if_neg (by simpa using hne), Path.absolute,
    Path.lexical_normal (Path.isAbsolute_join path w.rooted)]

lemma runOn_load_file {s : String} (hf : w.tree.isFile (w.located path) = true)
    (hs : runOn w (readText path) = (.ok s, w)) : runOn w (load path) = (ofText s, w) := by
  rw [load, runOn_bind_ok _ (runOn_isFile path), hf, if_pos rfl, runOn_outcome_bind, hs]
  exact runOn_ofResult _

lemma runOn_load_missing (hf : w.tree.isFile (w.located path) = false) : runOn w (load path) = (.ok none, w) := by
  rw [load, runOn_bind_ok _ (runOn_isFile path), hf, if_neg (by decide), runOn_pure]

/-- A text is read under every path that leads to its file. -/
lemma runOn_load_at {s : String} (hs : '\r' ∉ s.toList) (hf : w.tree.isFile (w.located path) = true)
    (hb : w.tree.get? (Path.lexical (w.located path)) = some (.file (Text.encode s))) :
    runOn w (load path) = (ofText s, w) := by
  obtain ⟨b, hread, hget⟩ := Tree.read_of_isFile hf
  obtain rfl := Entry.file.inj (Option.some.inj (hget.symm.trans hb))
  exact runOn_load_file hf (runOn_readText hs hread)

/-- A report is read under every path that leads to its file. -/
lemma Sound.runOn_load (h : r.Sound) (hf : w.tree.isFile (w.located path) = true)
    (hb : w.tree.get? (Path.lexical (w.located path)) = some (.file (Text.encode (Json.write r.toDatum)))) :
    runOn w (load path) = (.ok (some r), w) := by
  have hfeeds : '\r' ∉ (Json.write r.toDatum).toList := by
    rw [Json.write, String.toList_ofList]
    exact h.readBack.feeds 0
  rw [runOn_load_at hfeeds hf hb, ofText_write h]

/-- **A report that was written is read again.** It always is under the normal form of its path, and under the path as
it is spelled exactly if that leads to a file once the report is written; else there is no report. -/
theorem load_written (h : r.Sound) (hw : runOn w (r.write path) = (.ok true, w')) :
    runOn w' (load (Path.absolute w.here path)) = (.ok (some r), w') ∧
      runOn w' (load path) = (.ok (if w'.tree.isFile (w'.located path) then some r else none), w') := by
  obtain ⟨hhere, hfile, hget⟩ := of_writeFile_true hw
  have habs : w'.located (Path.absolute w.here path) = Path.absolute w.here path :=
    World.located_absolute (Path.isAbsolute_absolute path w.rooted)
  constructor
  · rw [← habs] at hfile hget
    exact h.runOn_load hfile hget
  · split
    · rename_i hf
      have hne : path ≠ "" := by
        rintro rfl
        exact absurd hf nofun
      rw [← hhere, ← lexical_located hne] at hget
      exact h.runOn_load hf hget
    · rename_i hf
      exact runOn_load_missing (Bool.eq_false_iff.2 hf)

/-- A report of one attempt, after which one diagnostic is left. -/
def oneLeft : Report where
  timestamp := .ofUniversal World.beginning
  duration := 1.5
  projectPath := "/w"
  status := "improved"
  initial := 3
  final := 1
  improvement := 2
  successRate := 0.6667
  phases := [{
    category := "import-issues", iteration := 1, before := 3, after := 1, improvement := 2, applied := 1,
    filesChanged := ["src/\u00e9.ts"], backup := some "b1" }]
  schedule := [⟨"import-issues", 0.9, "imports", "import-issues", 2, 1⟩]
  recommendations := ["1 type-mismatch diagnostics remain \u2014 manual review required"]
  remaining := [("type-mismatch", 1)]

lemma sound_oneLeft : oneLeft.Sound where
  inCalendar := by decide
  universal := rfl
  duration := by decide
  successRate := by decide
  initial := by decide
  final := by decide
  improvement := by decide
  maxIncrease := by decide
  phases p hp := by
    rw [List.mem_singleton.1 hp]
    constructor <;> decide
  schedule s hs := by
    rw [List.mem_singleton.1 hs]
    constructor <;> decide
  categories := by decide
  counts x hx := by
    rw [List.mem_singleton.1 hx]
    decide

/-- A report is read under the name that it was written to. -/
theorem load_written_oneLeft : oneLeft.Sound ∧ (runOn ({} : World) (oneLeft.write "r.json")).1 = .ok true ∧
    (runOn (runOn ({} : World) (oneLeft.write "r.json")).2 (load "r.json")).1 = .ok (some oneLeft) := by
  have htrue : (runOn ({} : World) (oneLeft.write "r.json")).1 = .ok true := rfl
  have hw : runOn ({} : World) (oneLeft.write "r.json") = (.ok true, (runOn ({} : World) (oneLeft.write "r.json")).2) :=
    Prod.ext htrue rfl
  have hfile : (runOn ({} : World) (oneLeft.write "r.json")).2.tree.isFile "/r.json" = true := rfl
  obtain ⟨-, hload⟩ := load_written sound_oneLeft hw
  refine ⟨sound_oneLeft, htrue, ?_⟩
  rw [hload]
  exact congrArg Except.ok (if_pos hfile)

/-- A report is written to a path that climbs out of a directory that is not there, and is not read under it: the path
that is written to is brought into its normal form, and the one that is read is not. -/
theorem lost_beside_missing : oneLeft.Sound ∧
    (runOn ({} : World) (oneLeft.write "missing/../r.json")).1 = .ok true ∧
    (runOn (runOn ({} : World) (oneLeft.write "missing/../r.json")).2 (load "missing/../r.json")).1 = .ok none := by
  refine ⟨sound_oneLeft, rfl, ?_⟩
  rw [runOn_load_missing rfl]

end Report

end Ratchet
