import Ratchet.Proofs.Snapshot

/-!
Snapshots in memory restore exactly what they cover.

A place below the workspace is covered when a walk would come to a file there that is not excluded, and also when the
checkpoint was given its path among the named files. Both are said of places, not of what stands there, so the walk at
the revert, of a tree in which anything may have happened, counts no file outside the places that were covered at the
checkpoint. A revert that ends well gives every covered place its bytes back and leaves every other place as it finds it.
-/

namespace Ratchet

namespace Workspace

/-- The places that a walk reaches when nothing is left out besides. -/
lemma reaches_nil_iff {q : Place} : reaches [] q = true ↔
    (∀ n ∈ q.dropLast, n ∉ vendorNames) ∧ ∀ n ∈ q.dropLast.head?, n ∉ generatedNames := by
  simp only [reaches_iff, List.not_mem_nil, not_false_eq_true, and_true]

end Workspace

namespace FileSnapshots

open Act

variable {s s₀ : FileSnapshots} {w : World} {here f : String} {files : List String} {q : Place}

/-- The places below the workspace that a checkpoint covers: what stands there is not excluded, and a walk reaches it
or it was named and lies in the workspace. -/
structure Covered (s : FileSnapshots) (here : String) (files : List String) (q : Place) : Prop where
  below : q ≠ []
  kept : Snapshots.isExcluded s.excluded (Path.ofComponents q) = false
  reached : (∀ n ∈ q.dropLast, n ∉ Workspace.vendorNames) ∧ (∀ n ∈ q.dropLast.head?, n ∉ Workspace.generatedNames) ∨
    Path.ofComponents q ∈ files ∧ (Path.within? here s.workspace (Path.ofComponents q)).isSome = true

/-- Named files whose paths are plain and stay as they are when they are cleaned. -/
def Tidy (here workspace : String) (files : List String) : Prop :=
  ∀ f ∈ files, Path.Plain f ∧ Path.clean here workspace f = f

/-- The named files that are kept of tidy ones are those in the workspace that are not excluded. -/
lemma mem_namedIn (ht : Tidy here s.workspace files) : f ∈ Snapshots.namedIn here s.workspace s.excluded files ↔
    f ∈ files ∧ (Path.within? here s.workspace f).isSome = true ∧ Snapshots.isExcluded s.excluded f = false := by
  rw [Snapshots.namedIn, List.mem_filter, List.mem_map, Bool.and_eq_true, Bool.and_eq_true, Bool.not_eq_true',
    Bool.not_eq_true']
  constructor
  · rintro ⟨⟨g, hg, rfl⟩, ⟨hin, -⟩, hex⟩
    rw [(ht g hg).2] at hin hex ⊢
    exact ⟨hg, hin, hex⟩
  · rintro ⟨hf, hin, hex⟩
    obtain ⟨⟨d, hd, hn, rfl⟩, hclean⟩ := ht f hf
    refine ⟨⟨_, hf, hclean⟩, ⟨hin, ?_⟩, hex⟩
    rw [String.isEmpty_eq_false_iff]
    intro h0
    have hc := Path.components_ofComponents hd fun n hm => (hn n hm).2
    rw [h0, Path.components_empty] at hc
    exact (hn "" (by rw [← hc]; exact List.mem_singleton_self "")).1.1 rfl

/-- The provider right after a checkpoint of named files. -/
structure After (s₀ s : FileSnapshots) (here : String) (files : List String) : Prop where
  same : Same s₀ s
  named : s.named = Snapshots.namedIn here s₀.workspace s₀.excluded files

/-- A file that ever lies at a covered place counts. -/
lemma After.counts (h : After s₀ s here files) (hr : Path.Clear s₀.workspace) (ht : Tidy here s₀.workspace files)
    (hq : s₀.Covered here files q) {b : ByteArray} (hb : w.tree.bytes? (Path.lexical s.workspace ++ q) = some b) :
    Path.ofComponents q ∈ s.files w := by
  obtain ⟨hne, hkept, hwalk | ⟨hmem, hin⟩⟩ := hq
  · refine mem_files_of_covers (h.same.1 ▸ hr) ⟨hne, Workspace.reaches_nil_iff.2 hwalk, ?_⟩ hb
    rw [h.same.2, hkept]
  · rw [FileSnapshots.files, Snapshots.ascending, List.mem_eraseDups, List.mem_mergeSort, List.mem_append, h.named]
    exact .inr ((mem_namedIn ht).2 ⟨hmem, hin, hkept⟩)

/-- Whatever counts, in any tree, lies at a covered place. -/
lemma After.placed (h : After s₀ s here files) (hr : Path.Clear s₀.workspace) (ht : Tidy here s₀.workspace files)
    (hf : f ∈ s.files w) : ∃ q, s₀.Covered here files q ∧ s.placeOf f = Path.lexical s₀.workspace ++ q := by
  rw [FileSnapshots.files, Snapshots.ascending, List.mem_eraseDups, List.mem_mergeSort, List.mem_append,
    List.mem_filter, h.named] at hf
  rcases hf with ⟨hf, hex⟩ | hf
  · obtain ⟨q, hne, hreach, ⟨b, hb⟩, rfl⟩ := (Workspace.mem_files (h.same.1 ▸ hr)).1 hf
    refine ⟨q, ⟨hne, by simpa [h.same.2] using hex, .inl (Workspace.reaches_nil_iff.1 hreach)⟩, ?_⟩
    rw [← h.same.1]
    exact (stat_of_bytes? (h.same.1 ▸ hr) hne (Tree.bytes?_eq_some.2 hb)).1
  · obtain ⟨hmem, hin, hex⟩ := (mem_namedIn ht).1 hf
    obtain ⟨⟨d, hd, hn, rfl⟩, -⟩ := ht f hmem
    refine ⟨d, ⟨hd, hex, .inr ⟨hmem, hin⟩⟩, ?_⟩
    rw [placeOf, h.same.1]
    exact (hr.join hd hn).2

/-- A revert changes no place other than those of the files that count when it starts and of those that are held. -/
lemma revert_frame {held : List (String × ByteArray)} {w₀ : World} {y : FileSnapshots × World} {p : Place}
    (hr : Path.isAbsolute s.workspace = true) (hs : s.held = some held) (hh : s.Holds w₀ held)
    (hrun : runOn (s, w) revert = (.ok (), y)) (hnow : ∀ f ∈ s.files w, s.placeOf f ≠ p)
    (hthen : ∀ f ∈ s.files w₀, s.placeOf f ≠ p) : y.2.tree.bytes? p = w.tree.bytes? p := by
  obtain ⟨held', u, hs', hrem, hback, -⟩ := revert_ok hrun
  obtain rfl := Option.some.inj (hs.symm.trans hs')
  have hspares : Act.Spares (· = p) (s.removeNew held (s.files w)) :=
    spares_removeNew fun f hf hp => absurd hp (hnow f hf)
  have hspared := hspares w
  rw [hrem] at hspared
  rw [(writeBack_ok hr (fun f b f' b' hf hf' hp => hh.one hf hf' hp) hback).2.2 p
    fun f b hf hp => hthen f ((hh f b).1 hf).1 hp.symm, hspared.files p rfl]

/-- The files that count are those of the walk and the named ones, if they come in order as they are. -/
lemma files_eq (ps : List Place) {fs : List String} (hr : Path.Clear s.workspace)
    (hdir : w.tree.get? (Path.lexical s.workspace) = some .directory)
    (hps : ((w.tree.filesBelow (Path.lexical s.workspace)).map (·.1)).filter (Workspace.reaches []) = ps)
    (hwalk : ps.Pairwise (Workspace.walkBefore · ·))
    (hfs : (ps.map Path.ofComponents).filter (!Snapshots.isExcluded s.excluded ·) ++ s.named = fs)
    (horder : fs.Pairwise (· ≤ ·)) (hdistinct : fs.eraseDups = fs) : s.files w = fs := by
  have hwalked : Workspace.files w.tree [] s.workspace = ps.map Path.ofComponents := by
    rw [Workspace.files, Workspace.stat_root hr hdir]
    simp only [Workspace.places_eq hps hwalk]
  rw [FileSnapshots.files, hwalked, hfs, Snapshots.ascending,
    List.mergeSort_of_pairwise (horder.imp fun h => decide_eq_true h), hdistinct]

/-- The snapshots of a project that leave out the report of a run. -/
def reporting : FileSnapshots := ofWorkspace "/" "/w" ["/w/report"]

/-- A project with the report of a run, a file among foreign packages, one that is made from the sources, and a source. -/
def mixed : World where
  tree := (((((((Tree.empty.put ["w"] .directory).put ["w", "report"] (.file ⟨#[4]⟩)).put ["w", "node_modules"]
    .directory).put ["w", "node_modules", "m"] (.file ⟨#[2]⟩)).put ["w", "dist"] .directory).put ["w", "dist", "d"]
    (.file ⟨#[3]⟩)).put ["w", "a"] (.file ⟨#[1]⟩))

/-- The same project with its source gone, another one in a new directory, and all other files rewritten. -/
def mixedLater : World where
  tree := ((((((((Tree.empty.put ["w"] .directory).put ["w", "n"] .directory).put ["w", "n", "b"] (.file ⟨#[1]⟩)).put
    ["w", "node_modules"] .directory).put ["w", "node_modules", "m"] (.file ⟨#[9]⟩)).put ["w", "dist"] .directory).put
    ["w", "dist", "d"] (.file ⟨#[9]⟩)).put ["w", "report"] (.file ⟨#[9]⟩))

/-- Those snapshots when the file among foreign packages is named. -/
def reportingNamed : FileSnapshots := { reporting with named := ["node_modules/m"] }

/-- Those snapshots when the project is held. -/
def reportingHeld : FileSnapshots :=
  { reportingNamed with held := some [("a", ⟨#[1]⟩), ("node_modules/m", ⟨#[2]⟩)] }

lemma clear_reporting : Path.Clear reporting.workspace := clear_ofWorkspace mixed.rooted _ _

lemma files_mixed : reportingNamed.files mixed = ["a", "node_modules/m"] :=
  files_eq [["a"], ["report"]] clear_reporting (by decide) (by decide) (by decide)
    (by decide) (by decide) (by decide)

lemma files_mixedLater : reportingHeld.files mixedLater = ["n/b", "node_modules/m"] :=
  files_eq [["report"], ["n", "b"]] clear_reporting (by decide) (by decide) (by decide)
    (by decide) (by decide) (by decide)

lemma checkpoint_mixed :
    runOn (reporting, mixed) (checkpoint "" ["node_modules/m"]) = (.ok (), (reportingHeld, mixed)) := by
  have hnamed : Snapshots.namedIn mixed.here reporting.workspace reporting.excluded ["node_modules/m"] =
      ["node_modules/m"] := by decide
  obtain ⟨u, hread⟩ := of_toOption (show (runOn mixed (reportingNamed.readAll ["a", "node_modules/m"])).1.toOption =
    some [("a", ⟨#[1]⟩), ("node_modules/m", ⟨#[2]⟩)] by decide)
  have hclear : Path.Clear reportingNamed.workspace := clear_reporting
  obtain ⟨rfl, -⟩ := readAll_ok hclear.absolute hread
  simp only [checkpoint, runOn_bind, runOn_get, runOn_keep, runOn_told, runOn_beside, hnamed]
  rw [← reportingNamed, files_mixed, hread]
  rfl

lemma revert_mixed : ∃ y, runOn (reportingHeld, mixedLater) revert = (.ok (), y) := by
  obtain ⟨y, hy⟩ := of_toOption (x := ()) (show (runOn (reportingHeld, mixedLater) revert).1.toOption = some () by
    simp only [revert, runOn_bind, runOn_get, files_mixedLater]
    decide +kernel)
  exact ⟨y, hy⟩

end FileSnapshots

end Ratchet
