import Ratchet.Proofs.Backup.Intact

/-!
Archived files that were tampered with.

A manifest records a digest for every file that its backup lists, and the digest is that of the bytes that were
archived. So whatever is done to the archived copies, checking the backup tells which of them are not there any more or
have other bytes, one by one and in the order of the list (`runOn_problems_recorded`), as long as the manifest is left
alone. All of them are checked before the first one is copied out: a backup that was tampered with is not restored, and
nothing changes (`tampered`).
-/

namespace Ratchet

/-! ### Plain paths -/

namespace Path

/-- A plain path leads from every directory to names below it. -/
lemma Plain.exists_lexical {f : String} (hf : Plain f) :
    ∃ d, d ≠ [] ∧ f = ofComponents d ∧ ∀ dir, Clear dir → lexical (join dir f) = lexical dir ++ d := by
  obtain ⟨d, hne, hnames, rfl⟩ := hf
  exact ⟨d, hne, rfl, fun dir hdir => (hdir.join hne hnames).2⟩

lemma Plain.level {f : String} (hf : Plain f) : Level f := by
  obtain ⟨d, hne, hnames, rfl⟩ := hf
  have hcomponents : components (ofComponents d) = d := components_ofComponents hne fun n hn => (hnames n hn).2
  obtain ⟨cs, hname⟩ := components_eq_name (ofComponents d)
  have hmem : name (ofComponents d) ∈ cs ++ [name (ofComponents d)] := List.mem_append_right _ (List.mem_singleton.2 rfl)
  rw [← hname, hcomponents] at hmem
  refine ⟨fun hclimb => ?_, (hnames _ hmem).1⟩
  rw [hcomponents] at hclimb
  exact (hnames _ hclimb).1.2.2 rfl

/-- Two plain paths lead from a directory to one place only if they are one. -/
lemma Plain.injective {dir f g : String} (hdir : Clear dir) (hf : Plain f) (hg : Plain g)
    (h : lexical (join dir f) = lexical (join dir g)) : f = g := by
  obtain ⟨d, -, rfl, hd⟩ := hf.exists_lexical
  obtain ⟨e, -, rfl, he⟩ := hg.exists_lexical
  rw [hd dir hdir, he dir hdir, List.append_cancel_left_eq] at h
  rw [h]

end Path

namespace Archive

open Act

variable {a : Archive} {w w' : World} {b : Backup} {dir : String} {fs : List String} {ds : List (String × String)}

/-- A path that climbs nowhere and ends with a name leads to a file just when one stands at its place. -/
lemma isFile_level {t : Tree} {f : String} (hdir : Path.Clear dir) (hf : Path.Level f) :
    t.isFile (Path.join dir f) = (t.bytes? (Path.lexical (Path.join dir f))).isSome := by
  rcases hbytes : t.bytes? (Path.lexical (Path.join dir f)) with _ | c
  · rw [Option.isSome_none, Bool.eq_false_iff]
    intro hfile
    obtain ⟨c, -, hc⟩ := Tree.read_of_isFile hfile
    rw [Tree.bytes?_eq_some.2 hc] at hbytes
    cases hbytes
  · rw [isFile_eq_leads hbytes, leads_of_level hdir hf (Tree.bytes?_eq_some.1 hbytes)]
    rfl

/-! ### What is recorded -/

/-- Copying files in leaves alone the places that no copy has. -/
lemma bytes?_copyIn (hdir : Path.Clear dir) {p : Place} (hp : ∀ f ∈ fs, p ≠ Path.lexical (Path.join dir f))
    (h : runOn w (a.copyIn dir fs) = (.ok ds, w')) : w'.tree.bytes? p = w.tree.bytes? p := by
  induction fs generalizing w ds with
  | nil => rw [← (Prod.mk.inj h).2]
  | cons f fs ih =>
    obtain ⟨hf, hfs⟩ := List.forall_mem_cons.1 hp
    obtain ⟨source, target, v, x, c, ds', -, ht, hg, hc, hread, -, hrest⟩ := copyIn_cons h
    obtain ⟨hclear, htarget, -⟩ := resolve_lexical w.rooted hdir ht
    rw [World.located_absolute hclear.absolute] at hread
    obtain ⟨-, -, hafter⟩ := copy_read hc hread
    have hstep : x.bytes? p = v.bytes? p := Tree.bytes?_congr (by rw [hafter, if_neg (htarget ▸ hf)])
    exact (ih hfs hrest).trans (hstep.trans ((Tree.ensureDirectories_grown hg).bytes? p))

/-- The digest that is recorded for a file is that of its copy, by induction on the files: a copy that was made is not
touched again, since plain paths have places of their own. -/
lemma copyIn_recorded (hdir : Path.Clear dir) (hplain : ∀ f ∈ fs, Path.Plain f) (hnodup : fs.Nodup)
    (h : runOn w (a.copyIn dir fs) = (.ok ds, w')) :
    ∀ f ∈ fs, ∃ c, w'.tree.bytes? (Path.lexical (Path.join dir f)) = some c ∧ (f, Digest.sha256 c) ∈ ds := by
  induction fs generalizing w ds with
  | nil => exact fun _ hf => absurd hf List.not_mem_nil
  | cons f fs ih =>
    obtain ⟨hf, hfs⟩ := List.forall_mem_cons.1 hplain
    obtain ⟨hnew, hnodup⟩ := List.nodup_cons.1 hnodup
    obtain ⟨source, target, v, x, c, ds', -, ht, hg, hc, hread, rfl, hrest⟩ := copyIn_cons h
    obtain ⟨hclear, htarget, -⟩ := resolve_lexical w.rooted hdir ht
    rw [World.located_absolute hclear.absolute] at hread
    obtain ⟨-, -, hafter⟩ := copy_read hc hread
    refine List.forall_mem_cons.2 ⟨⟨c, ?_, List.mem_cons_self⟩, fun g hg' => ?_⟩
    · have hapart : ∀ g ∈ fs, Path.lexical (Path.join dir f) ≠ Path.lexical (Path.join dir g) := by
        intro g hg' heq
        exact hnew (hf.injective hdir (hfs g hg') heq ▸ hg')
      rw [bytes?_copyIn hdir hapart hrest, Tree.bytes?_eq_some, hafter, if_pos htarget.symm]
    · obtain ⟨c', hc', hmem⟩ := ih hfs hnodup hrest g hg'
      exact ⟨c', hc', List.mem_cons_of_mem _ hmem⟩

/-- A backup that is put together records the digests of its copies. -/
lemma assemble_recorded (ha : Path.Clear a.root) (hws : Path.Clear a.workspace) {now : Instant} {n : Nat}
    {description : String} {files : List String} (hplain : ∀ f ∈ files, Path.Plain f) (hnodup : files.Nodup)
    (h : runOn w (a.assemble now (nameOf now n) description files) = (.ok b, w')) :
    ∀ f ∈ files, ∃ c, w'.tree.bytes? (a.copyOf (nameOf now n) f) = some c ∧
      b.digests.lookup f = some (Digest.sha256 c) := by
  have hsites := sites_nameOf ha now n
  have hkeys : (b.digests.map (·.1)).Nodup := by rwa [(assemble_ok ha hws h).digested]
  obtain ⟨t, u, t', t'', -, hcopy, -, -, ht', ht'', -, rfl⟩ := assemble_steps hsites.manifest.1.absolute h
  have hmoved := moved ha ht' ht''
  obtain ⟨hclear, hplace⟩ := hsites.place.1.child (n := filesName) (by decide) (by decide)
  intro f hf
  obtain ⟨c, hc, hmem⟩ := copyIn_recorded hsites.files.1 hplain hnodup hcopy f hf
  refine ⟨c, ?_, (Tree.lookup_iff_mem hkeys).2 hmem⟩
  obtain ⟨d, -, -, hd⟩ := (hplain f hf).exists_lexical
  rw [hd _ hsites.files.1, hsites.files.2, List.append_assoc] at hc
  rw [copyOf, hd _ hclear, hplace, hsites.place.2, List.append_assoc, ← hc]
  exact Tree.bytes?_congr (hmoved.inside _ fun h => absurd (List.cons.inj h).1 (by decide))

/-- A backup that was made records the digests of its copies. -/
lemma create_recorded (ha : Path.Clear a.root) (hws : Path.Clear a.workspace) {files : List String}
    {description : String} (h : runOn w (a.create files description) = (.ok b, w'))
    (hplain : ∀ f ∈ b.files, Path.Plain f) :
    ∀ f ∈ b.files, ∃ c, w'.tree.bytes? (a.copyOf b.name f) = some c ∧
      b.digests.lookup f = some (Digest.sha256 c) := by
  rcases create_cases h with ⟨f, hf, -⟩ | ⟨u, -, n, v, -, rfl, ⟨b', hb, hr⟩ | ⟨f, x, -, ⟨-, hf, -⟩ | ⟨-, hf, -⟩⟩⟩
  · cases hf
  · obtain rfl := Except.ok.inj hb
    have hsaid := (assemble_ok ha hws hr).said
    rw [hsaid] at hplain ⊢
    have hrecorded := assemble_recorded ha hws hplain (nodup_wanted a u.here files) hr
    rwa [hsaid] at hrecorded
  · cases hf
  · cases hf

/-! ### What is found -/

/-- What is said of a listed file: nothing if it lies in a directory with the bytes whose digest is recorded. -/
def finding (b : Backup) (t : Tree) (dir f : String) : Option String :=
  (t.bytes? (Path.lexical (Path.join dir f))).elim (some ("missing: " ++ f)) fun c =>
    if b.digests.lookup f = some (Digest.sha256 c) then none else some ("hash mismatch: " ++ f)

/-- **What checking a backup finds** in a directory of archived copies, if a digest is recorded for every file. -/
lemma runOn_problems_recorded (hdir : Path.Clear dir) (hlevel : ∀ f ∈ fs, Path.Level f)
    (hrecorded : ∀ f ∈ fs, ∃ c, b.digests.lookup f = some (Digest.sha256 c)) :
    runOn w (problems b dir fs) = (.ok (fs.filterMap (finding b w.tree dir)), w) := by
  induction fs with
  | nil => rfl
  | cons f fs ih =>
    obtain ⟨hf, hfs⟩ := List.forall_mem_cons.1 hlevel
    obtain ⟨⟨d, hd⟩, hds⟩ := List.forall_mem_cons.1 hrecorded
    have hlocated := World.located_absolute (w := w) (Path.isAbsolute_join f hdir.absolute)
    have hrest : ∀ found : List String, runOn w (do return found ++ (← problems b dir fs)) =
        (.ok (found ++ fs.filterMap (finding b w.tree dir)), w) := fun found => by
      rw [runOn_bind_ok _ (ih hfs hds), runOn_pure]
    have hfile : w.tree.isFile (Path.join dir f) = (w.tree.bytes? (Path.lexical (Path.join dir f))).isSome :=
      isFile_level hdir hf
    rw [problems, runOn_bind_ok _ (runOn_isFile _), hlocated, runOn_ite]
    rcases hbytes : w.tree.bytes? (Path.lexical (Path.join dir f)) with _ | c
    · have hfound : finding b w.tree dir f = some ("missing: " ++ f) := by
        rw [finding, hbytes]
        rfl
      rw [hfile, hbytes, if_neg (by simp), List.filterMap_cons_some hfound]
      exact hrest ["missing: " ++ f]
    · rw [hbytes, Option.isSome_some] at hfile
      obtain ⟨c', hread, hget⟩ := Tree.read_of_isFile hfile
      obtain rfl : c' = c := Option.some.inj ((Tree.bytes?_eq_some.2 hget).symm.trans hbytes)
      have hreads : runOn w (readBytes (Path.join dir f)) = (.ok c', w) := by rw [runOn_readBytes, hlocated, hread]
      have hdigest : (Digest.sha256 d).isEmpty = false := by simpa using sha256_ne_empty d
      rw [if_pos hfile, runOn_bind_ok _ hreads, hd, Option.getD_some, hdigest, runOn_ite]
      by_cases hsame : Digest.sha256 c' = Digest.sha256 d
      · have hfound : finding b w.tree dir f = none := by
          rw [finding, hbytes, hd, Option.elim_some, if_pos (congrArg some hsame.symm)]
        rw [if_neg (by simpa using hsame), List.filterMap_cons_none hfound]
        exact hrest []
      · have hfound : finding b w.tree dir f = some ("hash mismatch: " ++ f) := by
          rw [finding, hbytes, hd, Option.elim_some, if_neg fun h => hsame (Option.some.inj h).symm]
        rw [if_pos (by simpa using hsame), List.filterMap_cons_some hfound]
        exact hrest ["hash mismatch: " ++ f]

/-! ### Backups that were tampered with -/

/-- Whether the archived copy of a file is not there any more, or has other bytes than it had. -/
def Damaged (a : Archive) (name : String) (t t' : Tree) (f : String) : Prop :=
  t'.bytes? (a.copyOf name f) ≠ t.bytes? (a.copyOf name f)

instance (a : Archive) (name : String) (t t' : Tree) : DecidablePred (a.Damaged name t t') := fun _ =>
  inferInstanceAs (Decidable (_ ≠ _))

/-- What is said of a file whose archived copy is damaged. -/
def complaint (a : Archive) (name : String) (t : Tree) (f : String) : String :=
  if (t.bytes? (a.copyOf name f)).isSome then "hash mismatch: " ++ f else "missing: " ++ f

/-- What is said of all files of a backup whose archived copies are damaged, in the order of the list. -/
def complaints (a : Archive) (b : Backup) (t t' : Tree) : List String :=
  (b.files.filter fun f => decide (a.Damaged b.name t t' f)).map (a.complaint b.name t')

/-- The fault of a backup with which something is wrong. -/
def incomplete (name : String) (wrong : List String) : Fault :=
  .plain .backupIntegrity ("Backup " ++ name ++ " is incomplete: " ++ "; ".intercalate wrong)

/-- What is found are the damaged copies, if digests tell them from what was archived. -/
lemma filterMap_finding {t t' : Tree}
    (hrecorded : ∀ f ∈ b.files, ∃ c, t.bytes? (a.copyOf b.name f) = some c ∧
      b.digests.lookup f = some (Digest.sha256 c))
    (hdigest : ∀ f ∈ b.files, ∀ c c', t.bytes? (a.copyOf b.name f) = some c → t'.bytes? (a.copyOf b.name f) = some c' →
      Digest.sha256 c = Digest.sha256 c' → c = c') :
    b.files.filterMap (finding b t' (Path.join (Path.join a.root b.name) filesName)) = a.complaints b t t' := by
  rw [complaints, ← List.filterMap_eq_map, List.filterMap_filter]
  refine List.filterMap_congr fun f hf => ?_
  obtain ⟨c, hc, hd⟩ := hrecorded f hf
  have hfound : finding b t' (Path.join (Path.join a.root b.name) filesName) f =
      (t'.bytes? (a.copyOf b.name f)).elim (some ("missing: " ++ f)) fun c' =>
        if Digest.sha256 c = Digest.sha256 c' then none else some ("hash mismatch: " ++ f) := by
    simp only [finding, hd, Option.some_inj, copyOf]
  rw [hfound]
  simp only [Function.comp_apply, complaint, Damaged, hc, decide_eq_true_eq]
  rcases hc' : t'.bytes? (a.copyOf b.name f) with _ | c'
  · simp
  · by_cases hsame : c' = c
    · simp [hsame]
    · have hdiffer : Digest.sha256 c ≠ Digest.sha256 c' := fun h => hsame (hdigest f hf c c' hc hc' h).symm
      simp [hsame, hdiffer]

/-- A backup with which something is wrong is not restored, and nothing changes. -/
lemma restore_wrong {name : String} {wrong : List String} (hfind : runOn w (a.find name) = (.ok b, w))
    (hverify : runOn w (a.verify name) = (.ok wrong, w)) (hne : wrong ≠ []) :
    runOn w (a.restore name) = (.error (incomplete name wrong), w) := by
  have hempty : wrong.isEmpty = false := by simpa using hne
  rw [Archive.restore, runOn_bind_ok _ hfind, runOn_bind_ok _ hverify, hempty]
  rfl

section
variable {w₀ w₁ w₂ : World} {description : String} {files : List String}

/-- A backup that was made is found as long as its manifest is left alone. -/
lemma find_untouched (ha : Path.Clear a.root) (hws : Path.Clear a.workspace) (hw : Timely w₀)
    (hcreate : runOn w₀ (a.create files description) = (.ok b, w₁))
    (hmanifest : w₂.tree.bytes? (a.manifestPlace b.name) = w₁.tree.bytes? (a.manifestPlace b.name)) :
    runOn w₂ (a.find b.name) = (.ok b, w₂) ∧ b.path = Path.join a.root b.name ∧
      Path.Clear (Path.join b.path filesName) := by
  obtain ⟨n, hb⟩ := create_ok ha hws hcreate
  have hname : b.name = nameOf w₀.now n := by rw [hb.said]
  have hpath : b.path = Path.join a.root b.name := by rw [hb.said]
  obtain ⟨hproper, hslash, -⟩ := proper_nameOf w₀.now n
  refine ⟨?_, hpath, ?_⟩
  · refine runOn_find ha (hb.sound (nodup_wanted a w₀.here files) hw.universal hw.inCalendar) hpath ?_ ?_ ?_ ?_
    · exact hname ▸ listed_nameOf w₀.now n
    · exact hname ▸ ⟨hproper, hslash⟩
    · exact hname ▸ plain_nameOf w₀.now n
    · rw [hmanifest, hname]
      exact hb.manifest
  · rw [hpath, hname]
    exact ((sites_nameOf ha w₀.now n).place.1.child (n := filesName) (by decide) (by decide)).1

/-- **A backup that was tampered with is found out and not restored.** Its files are listed as plain paths, the manifest
is left alone, and digests tell the archived bytes from those that took their place. Then checking the backup tells
exactly the files whose copies are damaged, in the order of the list; if there are any, restoring it fails for that
reason, and no file anywhere is touched. Whatever else changed since the backup was made does not matter. -/
theorem tampered {root workspace : String} (hw : Timely w₀)
    (hcreate : runOn w₀ ((Archive.at w₀.here root workspace).create files description) = (.ok b, w₁))
    (hplain : ∀ f ∈ b.files, Path.Plain f)
    (hmanifest : w₂.tree.bytes? ((Archive.at w₀.here root workspace).manifestPlace b.name) =
      w₁.tree.bytes? ((Archive.at w₀.here root workspace).manifestPlace b.name))
    (hdigest : ∀ f ∈ b.files, ∀ c c', w₁.tree.bytes? ((Archive.at w₀.here root workspace).copyOf b.name f) = some c →
      w₂.tree.bytes? ((Archive.at w₀.here root workspace).copyOf b.name f) = some c' →
      Digest.sha256 c = Digest.sha256 c' → c = c') :
    (∀ f ∈ b.files, (w₁.tree.bytes? ((Archive.at w₀.here root workspace).copyOf b.name f)).isSome = true) ∧
    runOn w₂ ((Archive.at w₀.here root workspace).verify b.name) =
      (.ok ((Archive.at w₀.here root workspace).complaints b w₁.tree w₂.tree), w₂) ∧
    ((∃ f ∈ b.files, (Archive.at w₀.here root workspace).Damaged b.name w₁.tree w₂.tree f) →
      runOn w₂ ((Archive.at w₀.here root workspace).restore b.name) =
        (.error (incomplete b.name ((Archive.at w₀.here root workspace).complaints b w₁.tree w₂.tree)), w₂)) := by
  obtain ⟨ha, hws⟩ := clear_at w₀ root workspace
  generalize Archive.at w₀.here root workspace = a at *
  have hrecorded := create_recorded ha hws hcreate hplain
  obtain ⟨hfind, hpath, hclear⟩ := find_untouched ha hws hw hcreate hmanifest
  have hverify : runOn w₂ (a.verify b.name) = (.ok (a.complaints b w₁.tree w₂.tree), w₂) := by
    rw [← filterMap_finding hrecorded hdigest, ← hpath]
    refine (runOn_bind_ok _ hfind).trans (runOn_problems_recorded hclear (fun f hf => (hplain f hf).level) ?_)
    exact fun f hf => (hrecorded f hf).imp fun _ h => h.2
  refine ⟨fun f hf => ?_, hverify, ?_⟩
  · obtain ⟨c, hc, -⟩ := hrecorded f hf
    rw [hc]
    rfl
  · rintro ⟨f, hf, hdamaged⟩
    refine restore_wrong hfind hverify (List.ne_nil_of_mem (a := a.complaint b.name w₂.tree f) ?_)
    exact List.mem_map_of_mem (List.mem_filter.2 ⟨hf, decide_eq_true hdamaged⟩)

end

/-! ### A copy that is written over -/

/-- A file can be written over. -/
lemma exists_overwritten {t : Tree} {p : Place} {c : ByteArray} (h : t.bytes? p = some c) (c' : ByteArray) :
    ∃ w : World, ∀ q, w.tree.get? q = if q = p then some (.file c') else t.get? q := by
  have hfile := Tree.bytes?_eq_some.1 h
  have hne : p ≠ [] := by
    rintro rfl
    cases hfile
  refine ⟨{ tree := t.put p (.file c') }, Tree.get?_put (Tree.admits_of hne (Tree.isName_of_get? hfile)
    (Tree.get?_dropLast hfile) fun _ hdir => ?_)⟩
  cases hfile.symm.trans hdir

lemma sha256_apart : Digest.sha256 ⟨#[120]⟩ ≠ Digest.sha256 ⟨#[121]⟩ := by decide +kernel

/-- An archived copy is written over, and the backup is not restored. -/
theorem tampered_rewritten : ∃ b w₁ w₂, Timely workshop ∧ runOn workshop (shelf.create ["a"] "") = (.ok b, w₁) ∧
    b.files = ["a"] ∧ w₁.tree.bytes? (shelf.copyOf b.name "a") = some ⟨#[120]⟩ ∧
    w₂.tree.bytes? (shelf.copyOf b.name "a") = some ⟨#[121]⟩ ∧
    runOn w₂ (shelf.verify b.name) = (.ok ["hash mismatch: a"], w₂) ∧
    runOn w₂ (shelf.restore b.name) = (.error (incomplete b.name ["hash mismatch: a"]), w₂) := by
  obtain ⟨b, w₁, -, -, hcreate, -, -, -, hfiles⟩ := rewritten_steps
  obtain ⟨ha, hws⟩ := clear_shelf
  have hplain : ∀ f ∈ b.files, Path.Plain f := by
    rw [hfiles, List.forall_mem_singleton]
    exact ⟨["a"], List.cons_ne_nil _ _, by decide, by decide⟩
  have hexact : shelf.Exact workshop.tree.bytes? w₁.tree b.name "a" := by
    refine create_exact ha hws workspace_shelf hcreate ?_ "a" (hfiles ▸ List.mem_singleton.2 rfl)
    rw [hfiles, List.forall_mem_singleton]
    exact staging_shelf b.name rfl target_shelf
  obtain ⟨⟨r, -, hplace⟩, c, hc, hold⟩ := hexact
  obtain rfl : c = ⟨#[120]⟩ := by
    rw [target_shelf] at hold
    exact Option.some.inj (hold.symm.trans (by decide))
  obtain ⟨w₂, hw₂⟩ := exists_overwritten hc ⟨#[121]⟩
  have hnew : w₂.tree.bytes? (shelf.copyOf b.name "a") = some ⟨#[121]⟩ :=
    Tree.bytes?_eq_some.2 (by rw [hw₂, if_pos rfl])
  have hmanifest : w₂.tree.bytes? (shelf.manifestPlace b.name) = w₁.tree.bytes? (shelf.manifestPlace b.name) := by
    refine Tree.bytes?_congr ((hw₂ _).trans (if_neg ?_))
    rw [hplace, manifestPlace, List.append_cancel_left_eq]
    exact fun h => absurd (List.cons.inj h).1 (by decide)
  have hdigest : ∀ f ∈ b.files, ∀ c c', w₁.tree.bytes? (shelf.copyOf b.name f) = some c →
      w₂.tree.bytes? (shelf.copyOf b.name f) = some c' → Digest.sha256 c = Digest.sha256 c' → c = c' := by
    rw [hfiles, List.forall_mem_singleton]
    intro c c' h h' hsame
    rw [← Option.some.inj (hc.symm.trans h), ← Option.some.inj (hnew.symm.trans h')] at hsame
    exact absurd hsame sha256_apart
  have hdamaged : shelf.Damaged b.name w₁.tree w₂.tree "a" := by
    rw [Damaged, hnew, hc]
    decide
  have hcomplaints : shelf.complaints b w₁.tree w₂.tree = ["hash mismatch: a"] := by
    simp [complaints, complaint, hfiles, hdamaged, hnew]
  obtain ⟨-, hverify, hrestore⟩ := tampered timely_workshop hcreate hplain hmanifest hdigest
  change runOn w₂ (shelf.verify b.name) = (.ok (shelf.complaints b w₁.tree w₂.tree), w₂) at hverify
  refine ⟨b, w₁, w₂, timely_workshop, hcreate, hfiles, hc, hnew, hcomplaints ▸ hverify, ?_⟩
  rw [← hcomplaints]
  exact hrestore ⟨"a", hfiles ▸ List.mem_singleton.2 rfl, hdamaged⟩

end Archive

end Ratchet
