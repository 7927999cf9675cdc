import Ratchet.Proofs.UnusedImports.Again

/-!
Planning a removal.

A plan finds out what a run would do, and changes nothing. Of one file the two say the same (`runOn_editFile`). Of all
files they do so unless one that loses something is named again under another spelling (`plan_eq_run`): the run then
comes to the text that it has left there, and the plan to the text that it found before. The two always fail alike,
for what an edit leaves of a text is a text.
-/

namespace Ratchet

/-- A file that is there can be written. -/
lemma Tree.write_of_isFile {t : Tree} {path : String} (h : t.isFile path = true) (b : ByteArray) :
    ∃ t', t.write path b = .ok t' := by
  obtain ⟨c, hread, -⟩ := read_of_isFile h
  obtain ⟨hz, p, hstat⟩ := read_eq_ok.1 hread
  obtain ⟨hplace, hget⟩ := stat_eq.1 hstat
  refine ⟨t.put p (.file b), about_eq_ok.2 ⟨hz, ?_⟩⟩
  simp only [writable, hplace, hget, bind, Except.bind, pure, Except.pure]

namespace UnusedImports

open Act Text

variable {a : Assignment} {ts : List Target} {w w' u : World} {root f : String} {fs : List String} {x : Fault}

/-! ### One file -/

/-- What editing a file with some bytes comes to. -/
def tally (ts : List Target) (f : String) (b : ByteArray) : Except Fault Edits :=
  match decode? b with
  | none => .error (.encoding b)
  | some s => .ok (if (edit (ofFile ts f) s.toList).2 = 0 then {} else ⟨[f], (edit (ofFile ts f) s.toList).2⟩)

/-- What editing a file comes to, whether it is planned or done. -/
def outlook (w : World) (root : String) (ts : List Target) (f : String) : Except Fault Edits :=
  (bytesOf? w root f).elim (.ok {}) (tally ts f)

lemma outlook_congr (h : bytesOf? w' root f = bytesOf? w root f) : outlook w' root ts f = outlook w root ts f := by
  rw [outlook, outlook, h]

lemma tally_eq_error {b : ByteArray} : tally ts f b = .error x ↔ decode? b = none ∧ x = .encoding b := by
  unfold tally
  rcases decode? b with _ | s
  · simp [eq_comm]
  · simp

/-- Only a file that is no text fails. -/
lemma outlook_eq_error :
    outlook w root ts f = .error x ↔ ∃ b, bytesOf? w root f = some b ∧ decode? b = none ∧ x = .encoding b := by
  rw [outlook]
  rcases bytesOf? w root f with _ | b
  · simp
  · simp [tally_eq_error]

/-- **Of one file a plan and a run say the same**, and the plan changes nothing. -/
lemma runOn_editFile (a : Assignment) (ts : List Target) (f : String) (w : World) :
    ∃ w', runOn w (editFile a ts f) = (outlook w a.root ts f, w') ∧ (a.dryRun = true → w' = w) := by
  rcases hb : bytesOf? w a.root f with _ | b
  · refine ⟨w, ?_, fun _ => rfl⟩
    rw [runOn_editFile_absent hb, outlook, hb, Option.elim_none]
  obtain ⟨path, hpath, hbytes⟩ := exists_resolved hb
  rw [runOn_editFile_present hpath hbytes, outlook, hb, Option.elim_some, tally]
  rcases decode? b with _ | s
  · exact ⟨w, rfl, fun _ => rfl⟩
  dsimp only
  split_ifs with hzero hdry
  · exact ⟨w, rfl, fun _ => rfl⟩
  · exact ⟨w, rfl, fun _ => rfl⟩
  · -- The file is there, so it can be written.
    have habs : Path.isAbsolute path = true := (Workspace.resolve_eq_ok w.rooted hpath).1.absolute
    have hthere : w.tree.isFile path = true := by
      rw [(Workspace.read_resolved w.rooted hpath).1, hbytes]
      rfl
    obtain ⟨t, ht⟩ := Tree.write_of_isFile hthere (encode (String.ofList (edit (ofFile ts f) s.toList).1))
    have hwrite : runOn w (writeText path (String.ofList (edit (ofFile ts f) s.toList).1)) =
        (.ok (), { w with tree := t }) := by
      rw [writeText, runOn_writeBytes, World.located_absolute habs]
      exact runOn_edit_ok ht
    exact ⟨_, runOn_bind_ok _ hwrite, fun h => absurd h hdry⟩

/-- The worlds that a run comes through: a file keeps its bytes, or it was a text and is one. -/
structure Retold (w w' : World) : Prop where
  here : w'.here = w.here
  files : ∀ p, w'.tree.bytes? p = w.tree.bytes? p ∨
    ((w.tree.bytes? p).bind decode?).isSome ∧ ((w'.tree.bytes? p).bind decode?).isSome

lemma Retold.refl (w : World) : Retold w w := ⟨rfl, fun _ => .inl rfl⟩

lemma isSome_of_textOf? {s : List Char} (h : textOf? w root f = some s) :
    ((w.tree.bytes? (placeOf w.here root f)).bind decode?).isSome := by
  obtain ⟨t, ht, -⟩ := Option.map_eq_some_iff.1 h
  obtain ⟨b, hb, hdecode⟩ := Option.bind_eq_some_iff.1 ht
  obtain ⟨path, hpath, hbytes⟩ := exists_resolved hb
  rw [placeOf, ← (Workspace.resolve_eq_ok w.rooted hpath).2.1, hbytes, Option.bind_some, hdecode]
  rfl

lemma Edited.retold {e : Edits} (h : Edited a ts f w w' e) : Retold w w' := by
  cases h with
  | absent _ _ hsame =>
    rw [hsame]
    exact .refl w
  | kept _ _ _ _ hsame =>
    rw [hsame]
    exact .refl w
  | written s htext _ _ hbeside hleft =>
    refine ⟨hbeside.here, fun p => ?_⟩
    rcases eq_or_ne p (placeOf w.here a.root f) with rfl | hp
    · exact .inr ⟨isSome_of_textOf? htext, hbeside.here ▸ isSome_of_textOf? hleft⟩
    · exact .inl (hbeside.files p hp)

/-- A file fails in all the worlds that a run comes through, or in none. -/
lemma Retold.outlook_eq_error (h : Retold w w') : outlook w root ts f = .error x ↔ outlook w' root ts f = .error x := by
  rw [UnusedImports.outlook_eq_error, UnusedImports.outlook_eq_error]
  unfold bytesOf?
  rw [h.here]
  rcases Workspace.resolve w.here root f with _ | path
  · exact Iff.rfl
  dsimp only
  rcases h.files (Path.lexical path) with hsame | ⟨hthen, hnow⟩
  · rw [hsame]
  · refine iff_of_false ?_ ?_
    · rintro ⟨b, hb, hnone, -⟩
      rw [hb, Option.bind_some, hnone] at hthen
      exact Bool.false_ne_true hthen
    · rintro ⟨b, hb, hnone, -⟩
      rw [hb, Option.bind_some, hnone] at hnow
      exact Bool.false_ne_true hnow

/-! ### All files -/

/-- What editing files comes to when each is as it is now. -/
def outlooks (w : World) (root : String) (ts : List Target) : List String → Except Fault Edits
  | [] => .ok {}
  | f :: fs => do
    let e ← outlook w root ts f
    let r ← outlooks w root ts fs
    return ⟨e.files ++ r.files, e.applied + r.applied⟩

lemma outlooks_congr (h : ∀ f ∈ fs, bytesOf? w' root f = bytesOf? w root f) :
    outlooks w' root ts fs = outlooks w root ts fs := by
  induction fs with
  | nil => rfl
  | cons f fs ih =>
    obtain ⟨hf, hfs⟩ := List.forall_mem_cons.1 h
    rw [outlooks, outlooks, outlook_congr hf, ih hfs]

lemma outlooks_cons_eq_error : outlooks w root ts (f :: fs) = .error x ↔
    outlook w root ts f = .error x ∨ (∃ e, outlook w root ts f = .ok e) ∧ outlooks w root ts fs = .error x := by
  rw [outlooks]
  rcases outlook w root ts f with y | e
  · simp [bind, Except.bind]
  · rcases outlooks w root ts fs with y | r <;> simp [bind, Except.bind, pure, Except.pure]

lemma Retold.exists_outlook (h : Retold w w') :
    (∃ e, outlook w root ts f = .ok e) ↔ ∃ e, outlook w' root ts f = .ok e := by
  have hfails : (∃ e, outlook w root ts f = .error e) ↔ ∃ e, outlook w' root ts f = .error e :=
    exists_congr fun _ => h.outlook_eq_error
  rcases hw : outlook w root ts f with x | e <;> rcases hw' : outlook w' root ts f with y | d <;>
    simp_all

lemma Retold.outlooks_eq_error (h : Retold w w') :
    outlooks w root ts fs = .error x ↔ outlooks w' root ts fs = .error x := by
  induction fs with
  | nil => exact Iff.rfl
  | cons f fs ih =>
    rw [outlooks_cons_eq_error, outlooks_cons_eq_error, h.outlook_eq_error, h.exists_outlook, ih]

/-- A plan comes to what each file now says. -/
lemma runOn_editFiles_plan (hdry : a.dryRun = true) : runOn w (editFiles a ts fs) = (outlooks w a.root ts fs, w) := by
  induction fs with
  | nil => rfl
  | cons f fs ih =>
    obtain ⟨w', hf, hsame⟩ := runOn_editFile a ts f w
    obtain rfl := hsame hdry
    rw [editFiles, outlooks]
    rcases houtlook : outlook w' a.root ts f with y | e
    · rw [runOn_bind_error _ (hf.trans (by rw [houtlook]))]
      rfl
    · rw [runOn_bind_ok _ (hf.trans (by rw [houtlook]))]
      rcases houtlooks : outlooks w' a.root ts fs with y | r
      · rw [runOn_bind_error _ (ih.trans (by rw [houtlooks]))]
        rfl
      · rw [runOn_bind_ok _ (ih.trans (by rw [houtlooks]))]
        rfl

/-- How a run goes on after its first file. -/
lemma runOn_editFiles_cons (hdry : a.dryRun = false) {e : Edits} (he : outlook w a.root ts f = .ok e) (fs : List String) :
    ∃ u, Edited a ts f w u e ∧ (runOn w (editFiles a ts (f :: fs))).1 =
      (runOn u (editFiles a ts fs)).1.map fun r => ⟨e.files ++ r.files, e.applied + r.applied⟩ := by
  obtain ⟨u, hf, -⟩ := runOn_editFile a ts f w
  rw [he] at hf
  refine ⟨u, editFile_ok hdry hf, ?_⟩
  rw [editFiles, runOn_bind_ok _ hf, runOn_bind]
  rcases runOn u (editFiles a ts fs) with ⟨y | r, v⟩ <;> rfl

lemma runOn_editFiles_cons_error (he : outlook w a.root ts f = .error x) :
    (runOn w (editFiles a ts (f :: fs))).1 = .error x := by
  obtain ⟨u, hf, -⟩ := runOn_editFile a ts f w
  rw [he] at hf
  rw [editFiles, runOn_bind_error _ hf]

/-- A run fails as a plan does, whatever it has written before. -/
lemma editFiles_eq_error_iff (hdry : a.dryRun = false) :
    outlooks w a.root ts fs = .error x ↔ (runOn w (editFiles a ts fs)).1 = .error x := by
  induction fs generalizing w with
  | nil => exact Iff.rfl
  | cons f fs ih =>
    rw [outlooks_cons_eq_error]
    rcases he : outlook w a.root ts f with y | e
    · simp [runOn_editFiles_cons_error he]
    · obtain ⟨u, hedited, hrun⟩ := runOn_editFiles_cons hdry he fs
      rw [hrun, hedited.retold.outlooks_eq_error, ih]
      rcases (runOn u (editFiles a ts fs)).1 with z | r <;> simp [Except.map]

/-- Whether no file that loses something is named again under another spelling. -/
def Unrepeated (root : String) (ts : List Target) (w : World) (fs : List String) : Prop :=
  fs.Pairwise fun f g => placeOf w.here root f = placeOf w.here root g → Idle root ts w f

/-- An edited file leaves alone the files that are named after it. -/
lemma Edited.bytesOf? {e : Edits} {g : String} (h : Edited a ts f w u e)
    (hidle : placeOf w.here a.root f = placeOf w.here a.root g → Idle a.root ts w f) :
    UnusedImports.bytesOf? u a.root g = UnusedImports.bytesOf? w a.root g := by
  cases h with
  | absent _ _ hsame => rw [hsame]
  | kept _ _ _ _ hsame => rw [hsame]
  | written s htext hnonzero _ hbeside _ =>
    refine bytesOf?_congr hbeside.here (hbeside.files _ fun heq => ?_)
    rcases hidle heq.symm with hnone | ⟨t, ht, hzero⟩
    · rw [textOf?, hnone] at htext
      cases htext
    · obtain rfl := Option.some.inj (htext.symm.trans ht)
      exact absurd hzero hnonzero

/-- A run comes to what each file says before it, where none that loses something is named again. -/
lemma editFiles_eq_outlooks (hdry : a.dryRun = false) (h : Unrepeated a.root ts w fs) :
    (runOn w (editFiles a ts fs)).1 = outlooks w a.root ts fs := by
  induction fs generalizing w with
  | nil => rfl
  | cons f fs ih =>
    obtain ⟨hf, hfs⟩ := List.pairwise_cons.1 h
    rcases he : outlook w a.root ts f with y | e
    · rw [runOn_editFiles_cons_error he, outlooks, he]
      rfl
    · obtain ⟨u, hedited, hrun⟩ := runOn_editFiles_cons hdry he fs
      have hhere : u.here = w.here := hedited.retold.here
      have hbytes : ∀ g ∈ fs, UnusedImports.bytesOf? u a.root g = UnusedImports.bytesOf? w a.root g :=
        fun g hg => hedited.bytesOf? (hf g hg)
      have hunrepeated : Unrepeated a.root ts u fs := by
        refine List.Pairwise.imp_of_mem (fun {g k} hg hk hidle heq => ?_) hfs
        rw [Idle, textOf?_congr (hbytes g hg), hbytes g hg]
        exact hidle (by rwa [hhere] at heq)
      rw [hrun, ih hunrepeated, outlooks_congr hbytes, outlooks, he]
      rcases outlooks w a.root ts fs with z | r <;> rfl

/-- **A plan against its execution.** The plan changes nothing, the two fail alike, and they come to the same when no
file that loses something is named again under another spelling. -/
theorem plan_eq_run (a : Assignment) (w : World) :
    let plan := runOn w (edits { a with dryRun := true })
    let run := runOn w (edits { a with dryRun := false })
    plan.2 = w ∧ (∀ x, plan.1 = .error x ↔ run.1 = .error x) ∧
      (Unrepeated a.root (targetsOf a) w (targetFiles (targetsOf a)) → plan.1 = run.1) := by
  intro plan run
  have hplan : plan = (outlooks w a.root (targetsOf a) (targetFiles (targetsOf a)), w) :=
    runOn_editFiles_plan (a := { a with dryRun := true }) rfl
  rw [hplan]
  exact ⟨rfl, fun x => editFiles_eq_error_iff (a := { a with dryRun := false }) rfl,
    fun h => (editFiles_eq_outlooks (a := { a with dryRun := false }) rfl h).symm⟩

/-- An assignment that points at the first line of files. -/
def pointing (files : List String) : Assignment where
  category := "unused-imports"
  diagnostics := files.map fun f => ⟨f, 1, 1, "TS6133", "'a' is declared but its value is never read.", .low⟩
  root := "/w"

/-- The plan for two files, one of which is not there, is what the run comes to. -/
theorem plan_eq_run_distinct :
    let w := holding "import a from 'x';\nb();\n"
    let a := pointing ["a.ts", "b.ts"]
    Unrepeated a.root (targetsOf a) w (targetFiles (targetsOf a)) ∧
      (runOn w (edits { a with dryRun := true })).1 = (runOn w (edits { a with dryRun := false })).1 := by
  intro w a
  have hplaces : (targetFiles (targetsOf a)).Pairwise fun f g => placeOf w.here a.root f ≠ placeOf w.here a.root g := by
    decide
  have hunrepeated : Unrepeated a.root (targetsOf a) w (targetFiles (targetsOf a)) :=
    hplaces.imp fun hne heq => absurd heq hne
  exact ⟨hunrepeated, (plan_eq_run a w).2.2 hunrepeated⟩

/-- Where a file is named under two spellings, the plan counts what goes from it twice. -/
theorem plan_ne_run_respelled :
    let w := holding "import a from 'x';\nb();\n"
    let a := pointing ["a.ts", "src/../a.ts"]
    (runOn w (edits { a with dryRun := true })).1.toOption = some ⟨["a.ts", "src/../a.ts"], 2⟩ ∧
      (runOn w (edits { a with dryRun := false })).1.toOption = some ⟨["a.ts"], 1⟩ := by
  intro w a
  exact ⟨by decide +kernel, by decide +kernel⟩

end UnusedImports

end Ratchet
