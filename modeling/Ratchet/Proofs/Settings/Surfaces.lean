import Ratchet.CommandLine.Request
import Ratchet.Proofs.Acts
import Ratchet.Proofs.Schema
import Ratchet.Server

/-!
The same options on the command line and in a call.

Settings are read from the entries of the configuration file with what the caller says put over them. A caller's value
that is nothing is left out, so an option that is not given leaves the file's value alone. The command line says nothing
for a flag that is not given; a call always says whether a run is dry and whether it makes backups. The two surfaces come
to the same settings exactly when the file has nothing to say against a call's answer to those two questions.
-/

namespace Ratchet

namespace Settings

variable {defaults : Defaults} {s s' : Settings} {w w' : World} {es es' file : List (Datum × Datum)}
  {said : List (String × Datum)} {name project : String} {config : Option String}

/-! ### What is said over what the file says -/

/-- Whether a value says something. -/
def speaks (d : Datum) : Bool := !(d matches .null)

lemma speaks_of_ne {d : Datum} (h : d ≠ .null) : speaks d = true := by
  cases d with
  | null => exact absurd rfl h
  | _ => rfl

/-- The entries of a configuration with what the caller says put over them. -/
def overlaid (said : List (String × Datum)) (es : List (Datum × Datum)) : List (Datum × Datum) :=
  (said.filter fun x => speaks x.2).foldl (fun es x => Datum.putEntry (.text x.1) x.2 es) es

/-- What the caller says of a key, unless it is nothing. -/
def spoken? (name : String) (said : List (String × Datum)) : Option Datum := (said.lookup name).filter speaks

/-- What the caller says of a key goes before what the file says, by induction on what is said. -/
lemma entry?_overlaid (hd : (said.map (·.1)).Nodup) :
    Datum.entry? name (overlaid said es) = (spoken? name said).or ( Datum.entry? name es) := by
  induction said generalizing es with
  | nil => rfl
  | cons x said ih =>
    obtain ⟨k, d⟩ := x
    obtain ⟨hnew, hd⟩ := List.nodup_cons.1 hd
    have hrest : spoken? k said = none := by
      have hlookup : said.lookup k = none := List.lookup_eq_none_iff.2 fun y hy => by
        rw [bne_iff_ne]
        rintro rfl
        exact hnew (List.mem_map.2 ⟨y, hy, rfl⟩)
      rw [spoken?, hlookup]
      rfl
    by_cases hnull : d = .null
    · have hskip : overlaid ((k, d) :: said) es = overlaid said es := by rw [hnull]; rfl
      rw [hskip, ih hd]
      by_cases hk : name = k
      · rw [hk, hrest, spoken?, List.lookup_cons_self, hnull]
        rfl
      · rw [spoken?, spoken?, List.lookup_cons, beq_false_of_ne hk]
    · have hsays := speaks_of_ne hnull
      have hput : overlaid ((k, d) :: said) es = overlaid said (Datum.putEntry (.text k) d es) := by
        rw [overlaid, List.filter_cons, if_pos hsays]
        rfl
      rw [hput, ih hd]
      by_cases hk : name = k
      · rw [hk, hrest, Option.none_or, Datum.entry?_putEntry, spoken?, List.lookup_cons_self,
          Option.filter_some_pos hsays]
        rfl
      · rw [Datum.entry?_putEntry_ne hk, spoken?, spoken?, List.lookup_cons, beq_false_of_ne hk]

lemma load_eq : load defaults project config said = (do
    if ← Act.isDirectory project then
      let es ← readConfig project config
      let here := (← get).here
      Act.ofResult (ofConfig defaults (Datum.putEntry (.text "project_path") (.text (Path.absolute here project))
        (overlaid said es)))
    else throw (.plain .config ("Project path does not exist or is not a directory: " ++ project))) := rfl

lemma ofConfig_ok (h : ofConfig defaults es = .ok s) : ofEntries defaults es = .ok s := by
  unfold ofConfig at h
  split at h
  · rcases hread : ofEntries defaults es with s' | issues
    · rw [hread] at h
      rw [Except.ok.inj h]
    · rw [hread] at h
      exact absurd h nofun
  · exact absurd h nofun

/-- Settings that are loaded are read from the configuration, with what the caller says and the project over it. -/
lemma load_ok (h : Act.runOn w (load defaults project config said) = (.ok s, w')) :
    ∃ file, Act.runOn w (readConfig project config) = (.ok file, w') ∧
      ofEntries defaults (Datum.putEntry (.text "project_path") (.text (Path.absolute w'.here project))
        (overlaid said file)) = .ok s := by
  rw [load_eq] at h
  simp only [Act.isDirectory, Act.runOn_bind (Act.look _), Act.runOn_look, Act.runOn_ite] at h
  split at h
  · obtain ⟨file, v, hfile, hrest⟩ := Act.of_bind_ok h
    rw [Act.runOn_bind, Act.runOn_get] at hrest
    dsimp only at hrest
    rw [Act.runOn_ofResult] at hrest
    obtain ⟨hs, rfl⟩ := Prod.mk.inj hrest
    exact ⟨file, hfile, ofConfig_ok hs⟩
  · exact absurd (Prod.mk.inj h).1 nofun

/-! ### What settings are read from -/

/-- Every setting is what its field holds. -/
structure Reads (defaults : Defaults) (es : List (Datum × Datum)) (s : Settings) : Prop where
  projectPath : Schema.required es "project_path" Schema.text = .ok s.projectPath
  dryRun : Schema.field es "dry_run" false Schema.bool = .ok s.dryRun
  backupEnabled : Schema.field es "backup_enabled" true Schema.bool = .ok s.backupEnabled
  strict : Schema.field es "strict" false Schema.bool = .ok s.strict
  maxIterations : Schema.field es "max_iterations" defaults.maxIterations (Schema.intFrom 1) = .ok s.maxIterations
  timeout : Schema.field es "timeout_seconds" defaults.timeout (Schema.intFrom 1) = .ok s.timeout
  transformTimeout : Schema.field es "transform_timeout_seconds" defaults.transformTimeout (Schema.intFrom 1) =
    .ok s.transformTimeout
  maxIncrease : Schema.field es "max_allowed_increase" defaults.maxIncrease (Schema.intFrom 0) = .ok s.maxIncrease
  phaseDelay : Schema.field es "phase_delay_seconds" defaults.phaseDelay (Schema.floatFrom 0) = .ok s.phaseDelay
  toolchainCommand : Schema.field es "toolchain_command" (.line defaults.toolchainCommand) readCommand =
    .ok s.toolchainCommand
  snapshotProvider : Schema.field es "snapshot_provider" defaults.snapshotProvider readProvider = .ok s.snapshotProvider
  sandboxImage : Schema.field es "sandbox_image" defaults.sandboxImage Schema.text = .ok s.sandboxImage
  backupDir : Schema.field es "backup_dir" defaults.backupDir Schema.text = .ok s.backupDir
  reportPath : Schema.field es "report_path" defaults.reportPath Schema.text = .ok s.reportPath
  analysisPath : Schema.field es "analysis_path" defaults.analysisPath Schema.text = .ok s.analysisPath
  webhook : Schema.field es "report_webhook_url" defaults.webhook Schema.text = .ok s.webhook
  disabled : Schema.field es "disabled_categories" [] (Schema.list Schema.text) = .ok s.disabled
  transforms : Schema.field es "transforms" [] (Schema.mapping readTransform) = .ok s.transforms

lemma reads_of_ok (h : ofEntries defaults es = .ok s) : Reads defaults es s := by
  obtain ⟨g₁₇, transforms, h₁₇, htransforms, rfl⟩ := Schema.Checked.of_seq_ok h
  obtain ⟨g₁₆, disabled, h₁₆, hdisabled, rfl⟩ := Schema.Checked.of_seq_ok h₁₇
  obtain ⟨g₁₅, webhook, h₁₅, hwebhook, rfl⟩ := Schema.Checked.of_seq_ok h₁₆
  obtain ⟨g₁₄, analysisPath, h₁₄, hanalysisPath, rfl⟩ := Schema.Checked.of_seq_ok h₁₅
  obtain ⟨g₁₃, reportPath, h₁₃, hreportPath, rfl⟩ := Schema.Checked.of_seq_ok h₁₄
  obtain ⟨g₁₂, backupDir, h₁₂, hbackupDir, rfl⟩ := Schema.Checked.of_seq_ok h₁₃
  obtain ⟨g₁₁, sandboxImage, h₁₁, hsandboxImage, rfl⟩ := Schema.Checked.of_seq_ok h₁₂
  obtain ⟨g₁₀, snapshotProvider, h₁₀, hsnapshotProvider, rfl⟩ := Schema.Checked.of_seq_ok h₁₁
  obtain ⟨g₉, toolchainCommand, h₉, htoolchainCommand, rfl⟩ := Schema.Checked.of_seq_ok h₁₀
  obtain ⟨g₈, phaseDelay, h₈, hphaseDelay, rfl⟩ := Schema.Checked.of_seq_ok h₉
  obtain ⟨g₇, maxIncrease, h₇, hmaxIncrease, rfl⟩ := Schema.Checked.of_seq_ok h₈
  obtain ⟨g₆, transformTimeout, h₆, htransformTimeout, rfl⟩ := Schema.Checked.of_seq_ok h₇
  obtain ⟨g₅, timeout, h₅, htimeout, rfl⟩ := Schema.Checked.of_seq_ok h₆
  obtain ⟨g₄, maxIterations, h₄, hmaxIterations, rfl⟩ := Schema.Checked.of_seq_ok h₅
  obtain ⟨g₃, strict, h₃, hstrict, rfl⟩ := Schema.Checked.of_seq_ok h₄
  obtain ⟨g₂, backupEnabled, h₂, hbackupEnabled, rfl⟩ := Schema.Checked.of_seq_ok h₃
  obtain ⟨g₁, dryRun, h₁, hdryRun, rfl⟩ := Schema.Checked.of_seq_ok h₂
  obtain ⟨g₀, projectPath, h₀, hprojectPath, rfl⟩ := Schema.Checked.of_seq_ok (f := .ok Settings.mk) h₁
  obtain rfl := Schema.Checked.ok.inj h₀
  exact ⟨hprojectPath, hdryRun, hbackupEnabled, hstrict, hmaxIterations, htimeout, htransformTimeout, hmaxIncrease,
    hphaseDelay, htoolchainCommand, hsnapshotProvider, hsandboxImage, hbackupDir, hreportPath, hanalysisPath, hwebhook,
    hdisabled, htransforms⟩

/-- Two configurations that differ in nothing but whether a run is dry and makes backups are read alike but for that. -/
lemma Reads.congr (h : Reads defaults es s) (h' : Reads defaults es' s')
    (hsame : ∀ name, name ≠ "dry_run" → name ≠ "backup_enabled" → Datum.entry? name es' = Datum.entry? name es) :
    s' = { s with dryRun := s'.dryRun, backupEnabled := s'.backupEnabled } := by
  have hfield : ∀ {α : Type} {name : String} {absent x y : α} {r : Schema.Reader α}, Schema.field es name absent r = .ok x →
      Schema.field es' name absent r = .ok y → name ≠ "dry_run" → name ≠ "backup_enabled" → y = x := by
    intro α name absent x y r hx hy hd hb
    rw [Schema.field_congr (hsame name hd hb), hx] at hy
    exact (Schema.Checked.ok.inj hy).symm
  have hproject : s'.projectPath = s.projectPath := by
    have hy := h'.projectPath
    rw [Schema.required_congr (hsame _ (by decide) (by decide)), h.projectPath] at hy
    exact (Schema.Checked.ok.inj hy).symm
  obtain ⟨⟩ := s'
  rw [Settings.mk.injEq]
  exact ⟨hproject, rfl, rfl,
    hfield h.strict h'.strict (by decide) (by decide),
    hfield h.maxIterations h'.maxIterations (by decide) (by decide),
    hfield h.timeout h'.timeout (by decide) (by decide),
    hfield h.transformTimeout h'.transformTimeout (by decide) (by decide),
    hfield h.maxIncrease h'.maxIncrease (by decide) (by decide),
    hfield h.phaseDelay h'.phaseDelay (by decide) (by decide),
    hfield h.toolchainCommand h'.toolchainCommand (by decide) (by decide),
    hfield h.snapshotProvider h'.snapshotProvider (by decide) (by decide),
    hfield h.sandboxImage h'.sandboxImage (by decide) (by decide),
    hfield h.backupDir h'.backupDir (by decide) (by decide),
    hfield h.reportPath h'.reportPath (by decide) (by decide),
    hfield h.analysisPath h'.analysisPath (by decide) (by decide),
    hfield h.webhook h'.webhook (by decide) (by decide),
    hfield h.disabled h'.disabled (by decide) (by decide),
    hfield h.transforms h'.transforms (by decide) (by decide)⟩

/-! ### Two surfaces -/

/-- A request of the command line and the body of a call that give the same options, of those that both of them know. A
flag that is given on the command line is given in the call, and one that is not given there is not in the body. -/
structure SameOptions (r : CommandLine.RunRequest) (es : List (Datum × Datum)) (b : Server.RunRequest) : Prop where
  config : r.config = none
  strict : r.strict = false
  project : b.projectPath = r.project
  dryRun : Datum.entry? "dry_run" es = if r.dryRun then some (.bool true) else none
  backup : Datum.entry? "backup_enabled" es = if r.noBackup then some (.bool false) else none
  maxIterations : b.maxIterations = r.maxIterations
  timeout : b.timeout = r.timeout
  maxIncrease : b.maxIncrease = r.maxIncrease
  command : b.toolchainCommand = r.command

variable {r : CommandLine.RunRequest} {b : Server.RunRequest}

/-- A call says whether the run is dry and makes backups, also when its body does not. -/
lemma SameOptions.flags (h : SameOptions r es b) (hb : Server.RunRequest.ofEntries es = .ok b) :
    b.dryRun = r.dryRun ∧ b.backupEnabled = !r.noBackup := by
  obtain ⟨g₆, command, h₆, -, rfl⟩ := Schema.Checked.of_seq_ok hb
  obtain ⟨g₅, maxIncrease, h₅, -, rfl⟩ := Schema.Checked.of_seq_ok h₆
  obtain ⟨g₄, timeout, h₄, -, rfl⟩ := Schema.Checked.of_seq_ok h₅
  obtain ⟨g₃, maxIterations, h₃, -, rfl⟩ := Schema.Checked.of_seq_ok h₄
  obtain ⟨g₂, backup, h₂, hbackup, rfl⟩ := Schema.Checked.of_seq_ok h₃
  obtain ⟨g₁, dryRun, h₁, hdryRun, rfl⟩ := Schema.Checked.of_seq_ok h₂
  obtain ⟨g₀, project, h₀, -, rfl⟩ := Schema.Checked.of_seq_ok (f := .ok Server.RunRequest.mk) h₁
  obtain rfl := Schema.Checked.ok.inj h₀
  have hdry : Schema.field es "dry_run" false Schema.bool = .ok r.dryRun := by
    have he := h.dryRun
    cases hr : r.dryRun with
    | true => exact Schema.field_ok (by rw [he, hr]; rfl) rfl
    | false => exact Schema.field_absent (by rw [he, hr]; rfl)
  have hmake : Schema.field es "backup_enabled" true Schema.bool = .ok (!r.noBackup) := by
    have he := h.backup
    cases hr : r.noBackup with
    | true => exact Schema.field_ok (by rw [he, hr]; rfl) rfl
    | false => exact Schema.field_absent (by rw [he, hr]; rfl)
  exact ⟨Schema.Checked.ok.inj (hdryRun.symm.trans hdry), Schema.Checked.ok.inj (hbackup.symm.trans hmake)⟩

/-- Of everything else the two surfaces say the same. -/
lemma SameOptions.spoken (h : SameOptions r es b) (hd : name ≠ "dry_run") (hb : name ≠ "backup_enabled") :
    spoken? name b.said = spoken? name r.said := by
  simp only [spoken?, Server.RunRequest.said, CommandLine.RunRequest.said, List.lookup_cons, beq_false_of_ne hd,
    beq_false_of_ne hb, h.maxIterations, h.timeout, h.maxIncrease, h.command, h.strict]
  by_cases hs : name = "strict"
  · rw [hs]
    rfl
  · rw [beq_false_of_ne hs]

/-- The entries that settings of a project are read from. -/
def entriesFor (here project : String) (said : List (String × Datum)) (file : List (Datum × Datum)) :
    List (Datum × Datum) :=
  Datum.putEntry (.text "project_path") (.text (Path.absolute here project)) (overlaid said file)

lemma entry?_entriesFor {here : String} (hname : name ≠ "project_path") (hd : (said.map (·.1)).Nodup) :
    Datum.entry? name (entriesFor here project said file) = (spoken? name said).or ( Datum.entry? name file) := by
  rw [entriesFor, Datum.entry?_putEntry_ne hname, entry?_overlaid hd]

/-- A flag that the caller says is what the caller says. -/
lemma field_spoken {here : String} {absent flag : Bool} (hname : name ≠ "project_path") (hd : (said.map (·.1)).Nodup)
    (h : spoken? name said = some (.bool flag)) :
    Schema.field (entriesFor here project said file) name absent Schema.bool = .ok flag :=
  Schema.field_ok (by rw [entry?_entriesFor hname hd, h]; rfl) rfl

/-- A flag that the caller does not say is what the file says. -/
lemma field_unspoken {here : String} {absent : Bool} (hname : name ≠ "project_path") (hd : (said.map (·.1)).Nodup)
    (h : spoken? name said = none) : Schema.field (entriesFor here project said file) name absent Schema.bool =
      Schema.field file name absent Schema.bool :=
  Schema.field_congr (by rw [entry?_entriesFor hname hd, h, Option.none_or])

lemma nodup_call (b : Server.RunRequest) : (b.said.map (·.1)).Nodup := by
  show ["dry_run", "backup_enabled", "max_iterations", "timeout_seconds", "max_allowed_increase",
    "toolchain_command"].Nodup
  decide

lemma nodup_line (r : CommandLine.RunRequest) : (r.said.map (·.1)).Nodup := by
  show ["dry_run", "backup_enabled", "strict", "max_iterations", "timeout_seconds", "max_allowed_increase",
    "toolchain_command"].Nodup
  decide

/-- What a call comes to: what the command line comes to, but for the two questions that a call always answers. -/
lemma SameOptions.call {here : String} (h : SameOptions r es b) (hb : Server.RunRequest.ofEntries es = .ok b)
    (hs : Reads defaults (entriesFor here r.project r.said file) s)
    (hs' : Reads defaults (entriesFor here b.projectPath b.said file) s') :
    s' = { s with dryRun := r.dryRun, backupEnabled := !r.noBackup } := by
  obtain ⟨hdry, hbackup⟩ := h.flags hb
  have hdry' : s'.dryRun = r.dryRun := by
    have hfield := hs'.dryRun
    rw [field_spoken (by decide) (nodup_call b) rfl, hdry] at hfield
    exact (Schema.Checked.ok.inj hfield).symm
  have hbackup' : s'.backupEnabled = !r.noBackup := by
    have hfield := hs'.backupEnabled
    rw [field_spoken (by decide) (nodup_call b) rfl, hbackup] at hfield
    exact (Schema.Checked.ok.inj hfield).symm
  rw [hs.congr hs' fun name hd hb => ?_, hdry', hbackup']
  by_cases hname : name = "project_path"
  · rw [hname, entriesFor, entriesFor, Datum.entry?_putEntry, Datum.entry?_putEntry, h.project]
  · rw [entry?_entriesFor hname (nodup_call b), entry?_entriesFor hname (nodup_line r), h.spoken hd hb]

/-- Whether the command line plans a run and makes backups: as its flags say, and as the configuration says without them. -/
lemma line_flags {here : String} (hs : Reads defaults (entriesFor here r.project r.said file) s) :
    (s.dryRun = r.dryRun ↔ r.dryRun = true ∨ Schema.field file "dry_run" false Schema.bool = .ok false) ∧
      (s.backupEnabled = (!r.noBackup) ↔
        r.noBackup = true ∨ Schema.field file "backup_enabled" true Schema.bool = .ok true) := by
  constructor
  · have hfield := hs.dryRun
    cases hr : r.dryRun with
    | true =>
      have hsays : spoken? "dry_run" r.said = some (.bool true) := by rw [CommandLine.RunRequest.said, hr]; rfl
      rw [field_spoken (by decide) (nodup_line r) hsays] at hfield
      exact iff_of_true (Schema.Checked.ok.inj hfield).symm (.inl rfl)
    | false =>
      have hsays : spoken? "dry_run" r.said = none := by rw [CommandLine.RunRequest.said, hr]; rfl
      rw [field_unspoken (by decide) (nodup_line r) hsays] at hfield
      rw [hfield, Schema.Checked.ok.injEq]
      simp
  · have hfield := hs.backupEnabled
    cases hr : r.noBackup with
    | true =>
      have hsays : spoken? "backup_enabled" r.said = some (.bool false) := by rw [CommandLine.RunRequest.said, hr]; rfl
      rw [field_spoken (by decide) (nodup_line r) hsays] at hfield
      exact iff_of_true (Schema.Checked.ok.inj hfield).symm (.inl rfl)
    | false =>
      have hsays : spoken? "backup_enabled" r.said = none := by rw [CommandLine.RunRequest.said, hr]; rfl
      rw [field_unspoken (by decide) (nodup_line r) hsays] at hfield
      rw [hfield, Schema.Checked.ok.injEq]
      simp

/-- **The command line and a call with the same options come to the same settings exactly when the configuration has
nothing to say about a flag that is not given.** A call always says whether the run is dry and makes backups; so of the
settings that both surfaces come to, those of a call have the flags as they were given and the rest from the
configuration, and they are those of the command line if each flag is given or the configuration leaves it as it is. -/
theorem surfaces_agree_iff {w'' : World} (hb : Server.RunRequest.ofEntries es = .ok b) (h : SameOptions r es b)
    (hline : Act.runOn w (load defaults r.project r.config r.said) = (.ok s, w'))
    (hcall : Act.runOn w (load defaults b.projectPath none b.said) = (.ok s', w'')) :
    s' = { s with dryRun := r.dryRun, backupEnabled := !r.noBackup } ∧
      ∃ file, Act.runOn w (readConfig r.project none) = (.ok file, w') ∧
        (s' = s ↔ (r.dryRun = true ∨ Schema.field file "dry_run" false Schema.bool = .ok false) ∧
          (r.noBackup = true ∨ Schema.field file "backup_enabled" true Schema.bool = .ok true)) := by
  obtain ⟨file, hfile, hs⟩ := load_ok hline
  obtain ⟨file', hfile', hs'⟩ := load_ok hcall
  rw [h.config] at hfile
  rw [h.project, hfile] at hfile'
  obtain ⟨hsame, rfl⟩ := Prod.mk.inj hfile'
  obtain rfl := Except.ok.inj hsame
  have heq := h.call hb (reads_of_ok hs) (reads_of_ok hs')
  obtain ⟨hdry, hbackup⟩ := line_flags (reads_of_ok hs)
  refine ⟨heq, file, hfile, ?_⟩
  rw [← hdry, ← hbackup]
  constructor
  · intro hss
    rw [hss] at heq
    exact ⟨congrArg dryRun heq, congrArg backupEnabled heq⟩
  · rintro ⟨hd, hb⟩
    rw [heq, ← hd, ← hb]

/-! ### A project whose configuration plans its runs -/

/-- A project whose configuration says that its runs are only planned. -/
def plannedProject : World where
  tree := (Tree.empty.put ["w"] .directory).put ["w", "remediator.yaml"] (.file (Text.encode "dry_run: true\n"))

/-- When the run is asked to be dry the two surfaces agree on that project. -/
theorem surfaces_agree_iff_planned : ∃ s s' w' w'',
    Act.runOn plannedProject (load {} "/w" none
      ({ project := "/w", dryRun := true, noBackup := true, maxIterations := some 3 } : CommandLine.RunRequest).said) =
        (.ok s, w') ∧
    Act.runOn plannedProject (load {} "/w" none
      (⟨"/w", true, false, some 3, none, none, none⟩ : Server.RunRequest).said) = (.ok s', w'') ∧ s' = s := by
  set r : CommandLine.RunRequest := { project := "/w", dryRun := true, noBackup := true, maxIterations := some 3 } with hr
  set b : Server.RunRequest := ⟨"/w", true, false, some 3, none, none, none⟩ with hb
  have hread : Server.RunRequest.ofEntries [(.text "project_path", .text "/w"), (.text "dry_run", .bool true),
      (.text "backup_enabled", .bool false), (.text "max_iterations", .int 3)] = .ok b := rfl
  have hsame : SameOptions r [(.text "project_path", .text "/w"), (.text "dry_run", .bool true),
      (.text "backup_enabled", .bool false), (.text "max_iterations", .int 3)] b :=
    ⟨rfl, rfl, rfl, rfl, rfl, rfl, rfl, rfl, rfl⟩
  have hloads : (Act.runOn plannedProject (load {} "/w" none r.said)).1.toOption.isSome = true := by decide +kernel
  have hloads' : (Act.runOn plannedProject (load {} "/w" none b.said)).1.toOption.isSome = true := by decide +kernel
  obtain ⟨s, hs⟩ := Option.isSome_iff_exists.1 hloads
  obtain ⟨s', hs'⟩ := Option.isSome_iff_exists.1 hloads'
  obtain ⟨w', hline⟩ := Act.of_toOption hs
  obtain ⟨w'', hcall⟩ := Act.of_toOption hs'
  obtain ⟨-, file, -, hiff⟩ := surfaces_agree_iff hread hsame hline hcall
  exact ⟨s, s', w', w'', hline, hcall, hiff.2 ⟨.inl rfl, .inl rfl⟩⟩

/-- The run that a command line asks for. -/
def runAsked (w : World) (words : List String) : Option CommandLine.RunRequest :=
  match (Act.runOn w (CommandLine.Request.ofWords words)).1 with
  | .ok (.ok (.run r)) => some r
  | _ => none

/-- A run of that project that is asked for without options is planned from the command line and made in earnest when a
call asks for it. -/
theorem plan_lost_in_call : ∃ s s' w' w'' b,
    runAsked plannedProject ["run", "/w"] = some { project := "/w" } ∧
    Server.RunRequest.ofEntries [(.text "project_path", .text "/w")] = .ok b ∧
    Act.runOn plannedProject (load {} "/w" none ({ project := "/w" } : CommandLine.RunRequest).said) = (.ok s, w') ∧
    Act.runOn plannedProject (load {} b.projectPath none b.said) = (.ok s', w'') ∧
    s.dryRun = true ∧ s'.dryRun = false := by
  have hline : (Act.runOn plannedProject (load {} "/w" none
      ({ project := "/w" } : CommandLine.RunRequest).said)).1.toOption.map (·.dryRun) = some true := by decide +kernel
  have hcall : (Act.runOn plannedProject (load {} "/w" none
      (⟨"/w", false, true, none, none, none, none⟩ : Server.RunRequest).said)).1.toOption.map (·.dryRun) = some false := by
    decide +kernel
  obtain ⟨s, hs, hdry⟩ := Option.map_eq_some_iff.1 hline
  obtain ⟨s', hs', hdry'⟩ := Option.map_eq_some_iff.1 hcall
  obtain ⟨w', hw'⟩ := Act.of_toOption hs
  obtain ⟨w'', hw''⟩ := Act.of_toOption hs'
  exact ⟨s, s', w', w'', ⟨"/w", false, true, none, none, none, none⟩, by decide +kernel, rfl, hw', hw'', hdry, hdry'⟩

end Settings

end Ratchet
