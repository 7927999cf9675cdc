import Ratchet.Proofs.Run.Current

/-!
What snapshots in memory leave out.

Paths are excluded by their texts. A text spells a place plainly when it is the names that lead there, with slashes
between them. A place that is spelled plainly among the excluded paths is out of the provider's reach: as long as the
named files that lie there are spelled plainly too, no checkpoint holds a file there and no revert touches one, whatever
happens to the tree. Texts are not seen through: a configured directory that is spelled over another one is snapshotted
and reverted like any other.
-/

namespace Ratchet

open Act

namespace Snapshots

/-- The text by which a path is excluded. -/
def excludingText (here workspace path : String) : String :=
  String.ofList (Text.dropEndWhile (· == '/') (Path.clean here workspace path).toList)

lemma isExcluded_of_prefix {excluded : List String} {r d : Place} (hr : r ≠ [])
    (hmem : Path.ofComponents r ∈ excluded) (h : r <+: d) : isExcluded excluded (Path.ofComponents d) = true :=
  List.any_eq_true.2 ⟨_, hmem, Path.isBelow_ofComponents hr h⟩

lemma mem_excludedIn {here workspace path : String} {paths : List String} (h : path ∈ paths)
    (hplain : Path.Plain (excludingText here workspace path))
    (hdots : ¬ "..".toList <+: (excludingText here workspace path).toList) :
    excludingText here workspace path ∈ excludedIn here workspace paths := by
  obtain ⟨d, hd, hn, htext⟩ := hplain
  have hrel : Path.isAbsolute (excludingText here workspace path) = false := by
    rw [htext]
    exact Path.isAbsolute_ofComponents hd hn
  have hne : excludingText here workspace path ≠ "" := by
    intro h0
    have hc := Path.components_ofComponents hd fun n hm => (hn n hm).2
    rw [← htext, h0, Path.components_empty] at hc
    exact (hn "" (by rw [← hc]; exact List.mem_singleton.2 rfl)).1.1 rfl
  refine List.mem_filter.2 ⟨List.mem_map_of_mem h, ?_⟩
  rw [hrel, Bool.and_eq_true, Bool.and_eq_true, Bool.not_eq_true', Bool.not_eq_true',
    String.isEmpty_eq_false_iff, ← Bool.not_eq_true, List.isPrefixOf_iff_prefix]
  exact ⟨⟨hne, hdots⟩, rfl⟩

end Snapshots

namespace FileSnapshots

variable {s s₀ : FileSnapshots} {w : World} {p : Place}

/-- A provider that has nothing to do with what stands at a place or below it: the place is spelled plainly among the
excluded paths, and neither a named file nor one that is held lies there. -/
structure Shuns (s : FileSnapshots) (p : Place) : Prop where
  excluded : ∃ r, r ≠ [] ∧ Path.ofComponents r ∈ s.excluded ∧ p = Path.lexical s.workspace ++ r
  named : ∀ f ∈ s.named, ¬ p <+: s.placeOf f
  held : ∀ held, s.held = some held → ∀ f b, (f, b) ∈ held → ¬ p <+: s.placeOf f

/-- No file that counts lies there, in any tree. -/
lemma Shuns.files (hr : Path.Clear s.workspace) (h : s.Shuns p) : ∀ f ∈ s.files w, ¬ p <+: s.placeOf f := by
  obtain ⟨r, hr0, hmem, rfl⟩ := h.excluded
  intro f hf
  rw [FileSnapshots.files, Snapshots.ascending, List.mem_eraseDups, List.mem_mergeSort, List.mem_append,
    List.mem_filter] at hf
  rcases hf with ⟨hf, hex⟩ | hf
  · obtain ⟨d, hd, -, ⟨b, hb⟩, rfl⟩ := (Workspace.mem_files hr).1 hf
    rw [(stat_of_bytes? hr hd (Tree.bytes?_eq_some.2 hb)).1, List.prefix_append_right_inj]
    intro hpre
    rw [Snapshots.isExcluded_of_prefix hr0 hmem hpre] at hex
    cases hex
  · exact h.named f hf

/-- Named files that are spelled plainly if they lie there do not lie there when they are tracked. -/
lemma Shuns.name (hr : Path.Clear s.workspace) (h : s.Shuns p) {files : List String}
    (hplain : ∀ f ∈ files, p <+: s.placeOf (Path.clean w.here s.workspace f) →
      Path.Plain (Path.clean w.here s.workspace f)) :
    Shuns { s with named := Snapshots.namedIn w.here s.workspace s.excluded files } p := by
  refine ⟨h.excluded, fun g hg hpre => ?_, h.held⟩
  obtain ⟨hg, hkeep⟩ := List.mem_filter.1 hg
  obtain ⟨f, hf, rfl⟩ := List.mem_map.1 hg
  obtain ⟨d, hd, hn, htext⟩ := hplain f hf hpre
  obtain ⟨r, hr0, hmem, rfl⟩ := h.excluded
  rw [placeOf, htext, (hr.join hd hn).2, List.prefix_append_right_inj] at hpre
  rw [htext, Snapshots.isExcluded_of_prefix hr0 hmem hpre] at hkeep
  simp at hkeep

/-- A checkpoint has nothing to do with what lies there. -/
lemma Shuns.checkpoint (hr : Path.Clear s.workspace) (h : s.Shuns p) {label : String} {files : List String}
    (hplain : ∀ f ∈ files, p <+: s.placeOf (Path.clean w.here s.workspace f) →
      Path.Plain (Path.clean w.here s.workspace f)) {r : Except Fault Unit} {q : FileSnapshots × World}
    (hrun : runOn (s, w) (FileSnapshots.checkpoint label files) = (r, q)) : q.1.Shuns p := by
  have hu := h.name hr hplain
  simp only [FileSnapshots.checkpoint, runOn_bind, runOn_get, runOn_keep, runOn_told, runOn_beside] at hrun
  set u : FileSnapshots := { s with named := Snapshots.namedIn w.here s.workspace s.excluded files } with hudef
  have hur : Path.Clear u.workspace := hr
  rcases hread : runOn w (u.readAll (u.files w)) with ⟨f | held, w'⟩
  · rw [hread] at hrun
    obtain ⟨-, rfl⟩ := Prod.mk.inj hrun
    exact hu
  · rw [hread] at hrun
    obtain ⟨-, rfl⟩ := Prod.mk.inj hrun
    obtain ⟨-, hmem⟩ := readAll_ok hur.absolute hread
    refine ⟨hu.excluded, hu.named, fun held' heq f b hf => ?_⟩
    obtain rfl := Option.some.inj heq
    exact hu.files hur f ((hmem f b).1 hf).1

lemma Shuns.forget (h : s.Shuns p) : s.forget.Shuns p :=
  ⟨h.excluded, fun _ hf => absurd hf List.not_mem_nil, fun _ hf => absurd hf nofun⟩

/-- A revert touches nothing that lies there, however it ends, and leaves a provider of the same kind. -/
lemma Shuns.revert (hr : Path.Clear s.workspace) (h : s.Shuns p) {r : Except Fault Unit} {q : FileSnapshots × World}
    (hrun : runOn (s, w) FileSnapshots.revert = (r, q)) :
    World.Agree (fun x => p <+: x) w q.2 ∧ (q.1 = s ∨ q.1 = s.forget) := by
  have hremove : ∀ held, Spares (fun x => p <+: x) (s.removeNew held (s.files w)) := fun held =>
    spares_removeNew fun f hf hpre => absurd hpre (h.files hr f hf)
  obtain ⟨-, rfl, -⟩ | ⟨held, u, hs, hcases⟩ := revert_cases hrun
  · exact ⟨.refl w, .inl rfl⟩
  · have hwrite : ∀ {v : World} {e : Except Fault Unit} {v' : World}, runOn v (s.writeBack held) = (e, v') →
        World.Agree (fun x => p <+: x) v v' :=
      writeBack_agree hr fun f c hf hpre => absurd hpre (h.held held hs f c hf)
    have hafter := hremove held w
    obtain ⟨-, -, hq, ⟨g, hrem⟩ | ⟨hrem, g, hback⟩⟩ | ⟨-, hq, hrem, hback⟩ := hcases
    · rw [hrem] at hafter
      exact ⟨hafter, .inl hq⟩
    · rw [hrem] at hafter
      exact ⟨hafter.trans (hwrite hback), .inl hq⟩
    · rw [hrem] at hafter
      exact ⟨hafter.trans (hwrite hback), .inr hq⟩

/-- What may become of a provider: checkpoints of named files that are as asked, commits and reverts, in any worlds. -/
inductive Used (ok : String → List String → Prop) (s₀ : FileSnapshots) : FileSnapshots → Prop
  | opened : Used ok s₀ s₀
  | checkpoint {s : FileSnapshots} {w : World} {label : String} {files : List String} {r : Except Fault Unit}
      {q : FileSnapshots × World} (h : Used ok s₀ s) (hok : ok w.here files)
      (hrun : runOn (s, w) (FileSnapshots.checkpoint label files) = (r, q)) : Used ok s₀ q.1
  | commit {s : FileSnapshots} {w : World} {label : String} {r : Except Fault Unit} {q : FileSnapshots × World}
      (h : Used ok s₀ s) (hrun : runOn (s, w) (FileSnapshots.commit label) = (r, q)) : Used ok s₀ q.1
  | revert {s : FileSnapshots} {w : World} {r : Except Fault Unit} {q : FileSnapshots × World} (h : Used ok s₀ s)
      (hrun : runOn (s, w) FileSnapshots.revert = (r, q)) : Used ok s₀ q.1

/-- A provider goes on to have nothing to do with a place, by induction on what becomes of it. -/
lemma Used.shuns {ok : String → List String → Prop} (hr : Path.Clear s₀.workspace) (h₀ : s₀.Shuns p)
    (hplain : ∀ here files, ok here files → ∀ f ∈ files, p <+: s₀.placeOf (Path.clean here s₀.workspace f) →
      Path.Plain (Path.clean here s₀.workspace f)) (h : Used ok s₀ s) : s.workspace = s₀.workspace ∧ s.Shuns p := by
  induction h with
  | opened => exact ⟨rfl, h₀⟩
  | @checkpoint s w label files r q h hok hrun ih =>
    obtain ⟨hws, hs⟩ := ih
    have hp := hplain _ _ hok
    simp only [placeOf, ← hws] at hp
    exact ⟨(checkpoint_named hrun).1.1.trans hws, hs.checkpoint (hws ▸ hr) hp hrun⟩
  | commit h hrun ih =>
    obtain ⟨hws, hs⟩ := ih
    rw [FileSnapshots.commit, runOn_keep] at hrun
    rw [← (Prod.mk.inj hrun).2]
    exact ⟨hws, hs.forget⟩
  | revert h hrun ih =>
    obtain ⟨hws, hs⟩ := ih
    obtain ⟨-, hq | hq⟩ := hs.revert (hws ▸ hr) hrun
    · rw [hq]
      exact ⟨hws, hs⟩
    · rw [hq]
      exact ⟨hws, hs.forget⟩

end FileSnapshots

namespace Run

variable {s : Settings} {w w' : World} {f : FileSnapshots}

/-- The snapshots in memory that settings ask for are those of the project, without what the run writes itself. -/
lemma fileSnapshots_ofSettings (h : runOn w (Provider.ofSettings s) = (.ok (.files f), w')) :
    f = fileSnapshots s w.here := by
  have hchosen : ∀ {v : World} {choice : String}, runOn v (pure (if choice == "git" then
      Provider.git (.ofWorkspace w.here s.projectPath (s.ownPaths w.here))
      else .files (fileSnapshots s w.here)) : Act Provider) = (.ok (.files f), w') → f = fileSnapshots s w.here := by
    intro v choice hv
    have hf := Except.ok.inj (Prod.mk.inj hv).1
    split at hf
    · exact absurd hf nofun
    · exact (Provider.files.inj hf).symm
  unfold Provider.ofSettings at h
  rw [runOn_ite] at h
  split at h
  · exact absurd (Prod.mk.inj h).1 nofun
  · rw [runOn_bind, runOn_get] at h
    dsimp only at h
    rw [runOn_ite] at h
    split at h
    · obtain ⟨there, v, -, h⟩ := of_bind_ok h
      rw [runOn_ite] at h
      split at h
      · exact hchosen h
      · exact hchosen h
    · exact hchosen h

/-- A path of the run itself whose text, as it is excluded, is the names that lead from the project to its place. -/
structure SpelledPlainly (s : Settings) (here own : String) : Prop where
  plain : Path.Plain (Snapshots.excludingText here (fileSnapshots s here).workspace own)
  place : (fileSnapshots s here).placeOf (Snapshots.excludingText here (fileSnapshots s here).workspace own) =
    Path.lexical own
  dots : ¬ "..".toList <+: (Snapshots.excludingText here (fileSnapshots s here).workspace own).toList

lemma fileSnapshots_excluded (s : Settings) (here : String) : (fileSnapshots s here).excluded =
    Snapshots.excludedIn here (fileSnapshots s here).workspace (s.ownPaths here) := by
  simp only [fileSnapshots, FileSnapshots.ofWorkspace]

lemma fileSnapshots_named (s : Settings) (here : String) : (fileSnapshots s here).named = [] := rfl

lemma fileSnapshots_held (s : Settings) (here : String) : (fileSnapshots s here).held = none := rfl

lemma clear_fileSnapshots (s : Settings) (w : World) : Path.Clear (fileSnapshots s w.here).workspace :=
  FileSnapshots.clear_ofWorkspace w.rooted _ _

/-- The snapshots that settings ask for have nothing to do with a path of the run itself that is spelled plainly. -/
lemma SpelledPlainly.shuns {own : String} (h : SpelledPlainly s w.here own) (hown : own ∈ s.ownPaths w.here) :
    (fileSnapshots s w.here).Shuns (Path.lexical own) := by
  obtain ⟨⟨d, hd, hn, htext⟩, hplace, hdots⟩ := h
  have hmem := Snapshots.mem_excludedIn hown ⟨d, hd, hn, htext⟩ hdots
  rw [htext] at hmem hplace
  rw [FileSnapshots.placeOf, ((clear_fileSnapshots s w).join hd hn).2] at hplace
  refine ⟨⟨d, hd, ?_, hplace.symm⟩, fun g hg => ?_, fun held hh => ?_⟩
  · rw [fileSnapshots_excluded]
    exact hmem
  · rw [fileSnapshots_named] at hg
    exact absurd hg List.not_mem_nil
  · rw [fileSnapshots_held] at hh
    exact absurd hh nofun

/-- **What a run writes itself is out of the reach of its snapshots, if it is spelled plainly.** Let the backup store,
the report or the analysis be spelled plainly in the settings, and the named files of every checkpoint that lie there as
well. Then whatever is done to the tree, no file at or below that place is ever held, and no revert, however it ends,
makes, changes or removes a file there. -/
theorem own_untouched {v₀ : World} {f₀ : FileSnapshots} {own : String}
    (hopen : runOn w (Provider.ofSettings s) = (.ok (.files f₀), v₀)) (hown : own ∈ s.ownPaths w.here)
    (hplain : SpelledPlainly s w.here own)
    (hused : FileSnapshots.Used (fun here files => ∀ g ∈ files,
      Path.lexical own <+: f₀.placeOf (Path.clean here f₀.workspace g) → Path.Plain (Path.clean here f₀.workspace g)) f₀ f) :
    (∀ held, f.held = some held → ∀ g b, (g, b) ∈ held → ¬ Path.lexical own <+: f₀.placeOf g) ∧
      ∀ v r q, runOn (f, v) FileSnapshots.revert = (r, q) → ∀ p, Path.lexical own <+: p →
        q.2.tree.bytes? p = v.tree.bytes? p := by
  obtain rfl := fileSnapshots_ofSettings hopen
  have hr := clear_fileSnapshots s w
  obtain ⟨hws, hf⟩ := hused.shuns hr (hplain.shuns hown) fun _ _ h => h
  refine ⟨fun held hh g b hg => ?_, fun v r q hrun p hp => (hf.revert (hws ▸ hr) hrun).1.files p hp⟩
  have hfree := hf.held held hh g b hg
  rwa [FileSnapshots.placeOf, hws] at hfree

/-! ### A store that is spelled plainly, and one that is not -/

/-- A project with a file in a directory. -/
def project : World where
  tree := ((Tree.empty.put ["w"] .directory).put ["w", "store"] .directory).put ["w", "store", "f"] (.file ⟨#[120]⟩)

/-- The settings of a run that keeps its backups in that directory. -/
def storing (dir : String) : Settings := { projectPath := "/w", snapshotProvider := "files", backupDir := dir }

/-- A store that is spelled plainly is left alone, also when a file in it is named. -/
theorem own_untouched_store : ∃ q : FileSnapshots × World,
    runOn project (Provider.ofSettings (storing "store")) = (.ok (.files (fileSnapshots (storing "store") "/")), project) ∧
    (storing "store").backupRoot "/" ∈ (storing "store").ownPaths "/" ∧
    SpelledPlainly (storing "store") "/" ((storing "store").backupRoot "/") ∧
    runOn (fileSnapshots (storing "store") "/", project) (FileSnapshots.checkpoint "" ["/w/store/f"]) = (.ok (), q) ∧
    ∀ held, q.1.held = some held → ∀ g b, (g, b) ∈ held →
      ¬ Path.lexical ((storing "store").backupRoot "/") <+: (fileSnapshots (storing "store") "/").placeOf g := by
  have hopen := runOn_ofSettings_files (s := storing "store") (w := project) rfl rfl
  have hown : (storing "store").backupRoot "/" ∈ (storing "store").ownPaths "/" := List.mem_cons_self
  have hplain : SpelledPlainly (storing "store") "/" ((storing "store").backupRoot "/") := by
    refine ⟨⟨["store"], by decide, by decide, by decide⟩, by decide, by decide⟩
  have hnamed : ∀ g ∈ ["/w/store/f"], Path.Plain (Path.clean "/" (fileSnapshots (storing "store") "/").workspace g) := by
    intro g hg
    rw [List.mem_singleton.1 hg]
    exact ⟨["store", "f"], by decide, by decide, by decide⟩
  obtain ⟨q, hq⟩ := of_toOption (x := ()) (show (runOn (fileSnapshots (storing "store") "/", project)
    (FileSnapshots.checkpoint "" ["/w/store/f"])).1.toOption = some () by decide +kernel)
  exact ⟨q, hopen, hown, hplain, hq,
    (own_untouched hopen hown hplain (.checkpoint .opened (fun g hg _ => hnamed g hg) hq)).1⟩

/-- The project after the file was written. -/
def written : World := { project with tree := project.tree.put ["w", "store", "f"] (.file ⟨#[121]⟩) }

/-- A store that is spelled over another directory is held by a checkpoint, and a revert writes what it held. -/
theorem own_reverted_roundabout : ∃ q q' : FileSnapshots × World,
    runOn project (Provider.ofSettings (storing "x/../store")) =
      (.ok (.files (fileSnapshots (storing "x/../store") "/")), project) ∧
    Path.lexical ((storing "x/../store").backupRoot "/") = ["w", "store"] ∧
    runOn (fileSnapshots (storing "x/../store") "/", project) (FileSnapshots.checkpoint "" []) = (.ok (), q) ∧
    q.1.held = some [("store/f", ⟨#[120]⟩)] ∧ written.tree.bytes? ["w", "store", "f"] = some ⟨#[121]⟩ ∧
    runOn (q.1, written) FileSnapshots.revert = (.ok (), q') ∧ q'.2.tree.bytes? ["w", "store", "f"] = some ⟨#[120]⟩ := by
  have hheld : (runOn (fileSnapshots (storing "x/../store") "/", project) (FileSnapshots.checkpoint "" [])).2.1.held =
      some [("store/f", ⟨#[120]⟩)] := by decide +kernel
  obtain ⟨q, hq⟩ := of_toOption (x := ()) (show (runOn (fileSnapshots (storing "x/../store") "/", project)
    (FileSnapshots.checkpoint "" [])).1.toOption = some () by decide +kernel)
  have hback : ((runOn (fileSnapshots (storing "x/../store") "/", project) (do
      FileSnapshots.checkpoint "" []
      modify fun x => (x.1, written)
      FileSnapshots.revert
      return (← get).2.tree.bytes? ["w", "store", "f"])).1.toOption) = some (some ⟨#[120]⟩) := by decide +kernel
  rw [hq] at hheld
  obtain ⟨y, hy⟩ := of_toOption hback
  rw [runOn_bind_ok _ hq, runOn_bind, runOn_modify] at hy
  dsimp only at hy
  obtain ⟨⟨⟩, q', hq', hy⟩ := of_bind_ok hy
  rw [runOn_bind, runOn_get] at hy
  exact ⟨q, q', runOn_ofSettings_files rfl rfl, by decide, hq, hheld, by decide, hq',
    Except.ok.inj (Prod.mk.inj hy).1⟩

end Run

end Ratchet
