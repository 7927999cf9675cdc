import Ratchet.Proofs.Spared
import Ratchet.Proofs.UnusedImports.Edit
import Ratchet.Proofs.Workspace

/-!
Removing unused imports twice.

A run leaves in each file of its targets what an edit leaves of the text (`editFiles_ok`), so a second run with the same
diagnostics comes to nothing just when all texts are settled (`idle_again_iff`). A statement that goes moves the lines
below it up, and the next one may come to stand where the diagnostic points (`not_idle_again`).
-/

namespace Ratchet.UnusedImports

open Act Text

variable {a : Assignment} {ts : List Target} {w w' : World} {e : Edits} {root f : String} {fs : List String}

/-! ### The files of a workspace -/

/-- The place that a path denotes. -/
def placeOf (here root f : String) : Place := Path.lexical (Path.join (Path.absolute here root) f)

/-- The bytes of a file of the workspace. -/
def bytesOf? (w : World) (root f : String) : Option ByteArray :=
  match Workspace.resolve w.here root f with
  | .ok path => w.tree.bytes? (Path.lexical path)
  | .error _ => none

/-- The text of a file of the workspace. -/
def textOf? (w : World) (root f : String) : Option (List Char) :=
  ((bytesOf? w root f).bind decode?).map String.toList

/-- The targets of a file. -/
def ofFile (ts : List Target) (f : String) : List Target := ts.filter (·.file == f)

lemma bytesOf?_resolved {path : String} (h : Workspace.resolve w.here root f = .ok path) :
    bytesOf? w root f = w.tree.bytes? (Path.lexical path) := by
  unfold bytesOf?
  rw [h]

lemma exists_resolved {b : ByteArray} (h : bytesOf? w root f = some b) :
    ∃ path, Workspace.resolve w.here root f = .ok path ∧ w.tree.bytes? (Path.lexical path) = some b := by
  rcases hpath : Workspace.resolve w.here root f with e | path
  · unfold bytesOf? at h
    rw [hpath] at h
    exact absurd h nofun
  · exact ⟨path, rfl, bytesOf?_resolved hpath ▸ h⟩

lemma bytesOf?_congr (hhere : w'.here = w.here)
    (hbytes : w'.tree.bytes? (placeOf w.here root f) = w.tree.bytes? (placeOf w.here root f)) :
    bytesOf? w' root f = bytesOf? w root f := by
  unfold bytesOf?
  rw [hhere]
  split
  · rename_i path hpath
    rw [(Workspace.resolve_eq_ok w.rooted hpath).2.1]
    exact hbytes
  · rfl

lemma textOf?_congr (h : bytesOf? w' root f = bytesOf? w root f) : textOf? w' root f = textOf? w root f := by
  rw [textOf?, textOf?, h]

/-! ### Editing one file -/

/-- Editing a file that is not there. -/
lemma runOn_editFile_absent (h : bytesOf? w a.root f = none) : runOn w (editFile a ts f) = (.ok {}, w) := by
  have hget : runOn w (get : Act World) = (.ok w, w) := rfl
  rw [editFile, runOn_bind_ok _ hget]
  rcases hpath : Workspace.resolve w.here a.root f with e | path
  · rfl
  · have habs : Path.isAbsolute path = true := (Workspace.resolve_eq_ok w.rooted hpath).1.absolute
    have hmissing : w.tree.isFile path = false := by
      rw [← Bool.not_eq_true, (Workspace.read_resolved w.rooted hpath).1, ← bytesOf?_resolved hpath, h]
      exact nofun
    dsimp only
    rw [runOn_bind_ok _ (runOn_isFile path), World.located_absolute habs, hmissing]
    rfl

/-- Editing a file that is there goes on with what its bytes are read as. -/
lemma runOn_editFile_present {path : String} {b : ByteArray} (hpath : Workspace.resolve w.here a.root f = .ok path)
    (hb : w.tree.bytes? (Path.lexical path) = some b) :
    runOn w (editFile a ts f) = match decode? b with
      | none => (.error (.encoding b), w)
      | some s =>
        if (edit (ofFile ts f) s.toList).2 = 0 then (.ok {}, w)
        else runOn w (do
          unless a.dryRun do writeText path (String.ofList (edit (ofFile ts f) s.toList).1)
          return ⟨[f], (edit (ofFile ts f) s.toList).2⟩) := by
  have hget : runOn w (get : Act World) = (.ok w, w) := rfl
  have habs : Path.isAbsolute path = true := (Workspace.resolve_eq_ok w.rooted hpath).1.absolute
  obtain ⟨hfile, hread⟩ := Workspace.read_resolved (t := w.tree) w.rooted hpath
  have hthere : w.tree.isFile path = true := by
    rw [hfile, hb]
    rfl
  have hbytes : runOn w (readBytes path) = (.ok b, w) := by
    rw [runOn_readBytes, World.located_absolute habs, hread b hb]
  rw [editFile, runOn_bind_ok _ hget, hpath]
  dsimp only
  rw [runOn_bind_ok _ (runOn_isFile path), World.located_absolute habs, hthere, if_pos rfl]
  rcases hs : decode? b with _ | s
  · have hexact : runOn w (readExactText path) = (.error (.encoding b), w) := by
      rw [readExactText, runOn_bind_ok _ hbytes, hs, runOn_throw]
    rw [runOn_bind_error _ hexact]
  · have hexact : runOn w (readExactText path) = (.ok s, w) := by
      rw [readExactText, runOn_bind_ok _ hbytes, hs, runOn_pure]
    rw [runOn_bind_ok _ hexact]
    change runOn w (if (edit (ofFile ts f) s.toList).2 == 0 then _ else _) = _
    simp only [beq_iff_eq, runOn_ite]
    rfl

/-- What editing a file finds and does. -/
inductive Edited (a : Assignment) (ts : List Target) (f : String) (w w' : World) (e : Edits) : Prop
  /-- There is no such file. -/
  | absent (file : bytesOf? w a.root f = none) (idle : e = {}) (same : w' = w)
  /-- Nothing is to go from the file. -/
  | kept (s : List Char) (text : textOf? w a.root f = some s) (zero : (edit (ofFile ts f) s).2 = 0) (idle : e = {})
    (same : w' = w)
  /-- The file is written without what is to go. -/
  | written (s : List Char) (text : textOf? w a.root f = some s) (nonzero : (edit (ofFile ts f) s).2 ≠ 0)
    (files : e.files = [f]) (beside : World.Agree (· ≠ placeOf w.here a.root f) w w')
    (left : textOf? w' a.root f = some (edit (ofFile ts f) s).1)

lemma editFile_ok (hdry : a.dryRun = false) (h : runOn w (editFile a ts f) = (.ok e, w')) : Edited a ts f w w' e := by
  rcases hb : bytesOf? w a.root f with _ | b
  · rw [runOn_editFile_absent hb] at h
    obtain ⟨he, hw⟩ := Prod.mk.inj h
    exact .absent hb (Except.ok.inj he).symm hw.symm
  obtain ⟨path, hpath, hbytes⟩ := exists_resolved hb
  obtain ⟨hclear, hplace, -⟩ := Workspace.resolve_eq_ok w.rooted hpath
  rw [runOn_editFile_present hpath hbytes, hdry] at h
  rcases hs : decode? b with _ | s
  · rw [hs] at h
    exact absurd (Prod.mk.inj h).1 nofun
  have htext : textOf? w a.root f = some s.toList := by
    rw [textOf?, hb, Option.bind_some, hs, Option.map_some]
  rw [hs] at h
  dsimp only at h
  split at h
  · rename_i hzero
    obtain ⟨he, hw⟩ := Prod.mk.inj h
    exact .kept s.toList htext hzero (Except.ok.inj he).symm hw.symm
  · rename_i hnonzero
    obtain ⟨t, ht, hrest⟩ := of_writeText_bind_ok hclear.absolute h
    obtain ⟨he, rfl⟩ := Prod.mk.inj hrest
    obtain rfl := Except.ok.inj he
    have hafter := (Tree.write_ok ht).2.after
    refine .written s.toList htext hnonzero rfl ⟨rfl, fun p hp => Tree.bytes?_congr ?_⟩ ?_
    · rw [hafter, if_neg (by rw [hplace]; exact hp)]
    · have hthere : t.bytes? (Path.lexical path) = some (encode (String.ofList (edit (ofFile ts f) s.toList).1)) :=
        Tree.bytes?_eq_some.2 (by rw [hafter, if_pos rfl])
      rw [textOf?, @bytesOf?_resolved { w with tree := t } a.root f path hpath, hthere, Option.bind_some,
        decode?_encode, Option.map_some, String.toList_ofList]

/-- Whether nothing comes of editing a file. -/
def Idle (root : String) (ts : List Target) (w : World) (f : String) : Prop :=
  bytesOf? w root f = none ∨ ∃ s, textOf? w root f = some s ∧ (edit (ofFile ts f) s).2 = 0

lemma runOn_editFile_idle (h : Idle a.root ts w f) : runOn w (editFile a ts f) = (.ok {}, w) := by
  rcases h with hnone | ⟨s, htext, hzero⟩
  · exact runOn_editFile_absent hnone
  · obtain ⟨s, hs, rfl⟩ := Option.map_eq_some_iff.1 htext
    obtain ⟨b, hb, hs⟩ := Option.bind_eq_some_iff.1 hs
    obtain ⟨path, hpath, hbytes⟩ := exists_resolved hb
    rw [runOn_editFile_present hpath hbytes, hs]
    exact if_pos hzero

/-- An edit that names no file changes nothing. -/
lemma Edited.idle_of_files (h : Edited a ts f w w' e) (hfiles : e.files = []) : Idle a.root ts w f ∧ w' = w := by
  cases h with
  | absent hfile _ hsame => exact ⟨.inl hfile, hsame⟩
  | kept s htext hzero _ hsame => exact ⟨.inr ⟨s, htext, hzero⟩, hsame⟩
  | written _ _ _ hnamed => exact absurd (hnamed.symm.trans hfiles) nofun

/-! ### Editing files one after the other -/

lemma editFiles_cons (h : runOn w (editFiles a ts (f :: fs)) = (.ok e, w')) :
    ∃ d r u, runOn w (editFile a ts f) = (.ok d, u) ∧ runOn u (editFiles a ts fs) = (.ok r, w') ∧
      e = ⟨d.files ++ r.files, d.applied + r.applied⟩ := by
  obtain ⟨d, u, hd, h⟩ := of_bind_ok h
  obtain ⟨r, v, hr, h⟩ := of_bind_ok h
  obtain ⟨he, rfl⟩ := Prod.mk.inj h
  exact ⟨d, r, u, hd, hr, (Except.ok.inj he).symm⟩

/-- Edits that name no file change nothing, and nothing comes of editing any of the files. -/
lemma editFiles_of_files (hdry : a.dryRun = false) (h : runOn w (editFiles a ts fs) = (.ok e, w'))
    (hfiles : e.files = []) : ∀ f ∈ fs, Idle a.root ts w f := by
  induction fs generalizing w w' e with
  | nil => exact nofun
  | cons f fs ih =>
    obtain ⟨d, r, u, hd, hr, rfl⟩ := editFiles_cons h
    obtain ⟨hdfiles, hrfiles⟩ := List.append_eq_nil_iff.1 hfiles
    obtain ⟨hidle, rfl⟩ := (editFile_ok hdry hd).idle_of_files hdfiles
    exact List.forall_mem_cons.2 ⟨hidle, ih hr hrfiles⟩

/-- Nothing comes of editing files just when nothing comes of editing any of them. -/
lemma editFiles_idle_iff (hdry : a.dryRun = false) :
    runOn w (editFiles a ts fs) = (.ok {}, w) ↔ ∀ f ∈ fs, Idle a.root ts w f := by
  refine ⟨fun h => editFiles_of_files hdry h rfl, fun h => ?_⟩
  induction fs with
  | nil => rfl
  | cons f fs ih =>
    obtain ⟨hf, hfs⟩ := List.forall_mem_cons.1 h
    rw [editFiles, runOn_bind_ok _ (runOn_editFile_idle hf), runOn_bind_ok _ (ih hfs)]
    rfl

/-- **What editing files leaves of them.** Each is edited as it was found, for no other one lies at its place. -/
lemma editFiles_ok (hdry : a.dryRun = false) (h : runOn w (editFiles a ts fs) = (.ok e, w'))
    (happart : fs.Pairwise fun f g => placeOf w.here a.root f ≠ placeOf w.here a.root g) :
    World.Agree (fun p => ∀ f ∈ fs, p ≠ placeOf w.here a.root f) w w' ∧
      ∀ f ∈ fs, (bytesOf? w a.root f = none ∧ bytesOf? w' a.root f = none) ∨
        ∃ s, textOf? w a.root f = some s ∧ textOf? w' a.root f = some (edit (ofFile ts f) s).1 := by
  induction fs generalizing w w' e with
  | nil =>
    obtain ⟨-, rfl⟩ := Prod.mk.inj h
    exact ⟨.refl w, nofun⟩
  | cons f fs ih =>
    obtain ⟨d, r, u, hd, hr, -⟩ := editFiles_cons h
    obtain ⟨hf, happart⟩ := List.pairwise_cons.1 happart
    have hedited := editFile_ok hdry hd
    have hfirst : World.Agree (· ≠ placeOf w.here a.root f) w u := by
      cases hedited with
      | absent _ _ hsame =>
        rw [hsame]
        exact .refl w
      | kept _ _ _ _ hsame =>
        rw [hsame]
        exact .refl w
      | written _ _ _ _ hbeside => exact hbeside
    obtain ⟨hagree, hrest⟩ := ih hr (by rwa [hfirst.here])
    rw [hfirst.here] at hagree
    have hlater : bytesOf? w' a.root f = bytesOf? u a.root f :=
      bytesOf?_congr hagree.here (by rw [hfirst.here]; exact hagree.files _ hf)
    refine ⟨(hfirst.mono fun p hp => hp f List.mem_cons_self).trans
      (hagree.mono fun p hp g hg => hp g (List.mem_cons_of_mem f hg)), List.forall_mem_cons.2 ⟨?_, fun g hg => ?_⟩⟩
    · rw [hlater, textOf?_congr hlater]
      cases hedited with
      | absent hfile _ hsame => exact .inl ⟨hfile, hsame ▸ hfile⟩
      | kept s htext hzero _ hsame => exact .inr ⟨s, htext, by rw [edit_eq_self hzero, hsame, htext]⟩
      | written s htext _ _ _ hleft => exact .inr ⟨s, htext, hleft⟩
    · have hearlier : bytesOf? u a.root g = bytesOf? w a.root g :=
        bytesOf?_congr hfirst.here (hfirst.files _ (hf g hg).symm)
      have hg := hrest g hg
      rwa [hearlier, textOf?_congr hearlier] at hg

/-! ### The strategy -/

/-- The targets of an assignment. -/
def targetsOf (a : Assignment) : List Target := a.diagnostics.filterMap target?

/-- Whether something holds of the text of each file that an assignment points at, with the targets of that file. -/
def ForTexts (a : Assignment) (w : World) (holds : List Target → List Char → Prop) : Prop :=
  ∀ f ∈ targetFiles (targetsOf a), ∀ s ∈ textOf? w a.root f, holds (ofFile (targetsOf a) f) s

instance (holds : List Target → List Char → Prop) [∀ ts s, Decidable (holds ts s)] : Decidable (ForTexts a w holds) :=
  inferInstanceAs (Decidable (∀ f ∈ targetFiles (targetsOf a), ∀ s ∈ textOf? w a.root f, _))

/-- **When a second run is idle.** The files that the diagnostics point at lie at different places, and the breaks of
their lines are line feeds. Then a second run comes to nothing just when the texts are settled, which they are where no
line goes and the lines that are pointed at are plain. -/
theorem idle_again_iff {w₁ : World} (hdry : a.dryRun = false) (hrun : runOn w (edits a) = (.ok e, w₁))
    (happart : (targetFiles (targetsOf a)).Pairwise fun f g => placeOf w.here a.root f ≠ placeOf w.here a.root g)
    (hfed : ForTexts a w fun _ s => LineFed s) :
    (runOn w₁ (edits a) = (.ok {}, w₁) ↔ ForTexts a w Settled) ∧ (ForTexts a w Kept → ForTexts a w Settled) := by
  refine ⟨?_, fun hkept f hf s hs => (hkept f hf s hs).settled (hfed f hf s hs)⟩
  have hleft := (editFiles_ok hdry hrun happart).2
  change runOn w₁ (editFiles a (targetsOf a) (targetFiles (targetsOf a))) = _ ↔ _
  rw [editFiles_idle_iff hdry]
  refine forall₂_congr fun f hf => ?_
  rcases hleft f hf with ⟨hnone, hnone'⟩ | ⟨s, htext, htext'⟩
  · have htext : textOf? w a.root f = none := by
      rw [textOf?, hnone]
      rfl
    rw [htext]
    exact ⟨fun _ => nofun, fun _ => .inl hnone'⟩
  · have hthere : bytesOf? w₁ a.root f ≠ none := by
      intro h
      rw [textOf?, h] at htext'
      exact absurd htext' nofun
    rw [htext]
    simp only [Idle, hthere, false_or, htext', Option.some.injEq, exists_eq_left', Option.mem_def, forall_eq']
    exact edit_twice_iff (hfed f hf s htext)

/-- A world with one file. -/
def holding (s : String) : World where
  tree := (Tree.empty.put ["w"] .directory).put ["w", "a.ts"] (.file (encode s))

/-- An assignment with findings in that file. -/
def finding (found : List (String × Nat × String)) : Assignment where
  category := "unused-imports"
  diagnostics := found.map fun (code, line, message) => ⟨"a.ts", line, 1, code, message, .low⟩
  root := "/w"

/-- A run that takes a binding from one line and the next line as a whole leaves its text settled. -/
theorem idle_again_iff_settled :
    let w := holding "import \x7b a, b \x7d from 'x';\nimport c from 'y';\nb();\n"
    let a := finding [("TS6133", 1, "'a' is declared but its value is never read."),
      ("TS6133", 2, "'c' is declared but its value is never read.")]
    ∃ w₁, runOn w (edits a) = (.ok ⟨["a.ts"], 2⟩, w₁) ∧ runOn w₁ (edits a) = (.ok {}, w₁) := by
  intro w a
  have hfirst : (runOn w (edits a)).1.toOption = some ⟨["a.ts"], 2⟩ := by decide +kernel
  obtain ⟨w₁, hrun⟩ := of_toOption hfirst
  have happart : (targetFiles (targetsOf a)).Pairwise fun f g => placeOf w.here a.root f ≠ placeOf w.here a.root g := by
    decide
  have hfed : ForTexts a w fun _ s => LineFed s := by decide
  have hsettled : ForTexts a w Settled := by decide
  exact ⟨w₁, hrun, (idle_again_iff rfl hrun happart hfed).1.2 hsettled⟩

/-- Where two statements stand on lines that follow one another and the first one goes as a whole, a second run takes
the other one, though nothing was said of it. -/
theorem not_idle_again :
    let w := holding "import a from 'x';\nimport b from 'y';\nb();\n"
    let a := finding [("TS6192", 1, "All imports in import declaration are unused.")]
    ∃ w₁ w₂, runOn w (edits a) = (.ok ⟨["a.ts"], 1⟩, w₁) ∧ runOn w₁ (edits a) = (.ok ⟨["a.ts"], 1⟩, w₂) ∧
      textOf? w₁ "/w" "a.ts" = some "import b from 'y';\nb();\n".toList ∧
      textOf? w₂ "/w" "a.ts" = some "b();\n".toList ∧ runOn w₁ (edits a) ≠ (.ok {}, w₁) := by
  intro w a
  have h : (runOn w (do
      let first ← edits a
      let w₁ ← get
      let second ← edits a
      let w₂ ← get
      return (first, textOf? w₁ "/w" "a.ts", second, textOf? w₂ "/w" "a.ts"))).1.toOption =
        some (⟨["a.ts"], 1⟩, some "import b from 'y';\nb();\n".toList, ⟨["a.ts"], 1⟩, some "b();\n".toList) := by
    decide +kernel
  obtain ⟨u, h⟩ := of_toOption h
  obtain ⟨first, w₁, hrun, h⟩ := of_bind_ok h
  rw [runOn_bind, runOn_get] at h
  obtain ⟨second, w₂, hagain, h⟩ := of_bind_ok h
  rw [runOn_bind, runOn_get] at h
  obtain ⟨hresult, -⟩ := Prod.mk.inj h
  obtain ⟨rfl, hleft, rfl, hlost⟩ : first = ⟨["a.ts"], 1⟩ ∧
      textOf? w₁ "/w" "a.ts" = some "import b from 'y';\nb();\n".toList ∧ second = ⟨["a.ts"], 1⟩ ∧
      textOf? w₂ "/w" "a.ts" = some "b();\n".toList := by
    simpa only [Prod.mk.injEq] using Except.ok.inj hresult
  refine ⟨w₁, w₂, hrun, hagain, hleft, hlost, fun hidle => ?_⟩
  have hnone : Edits.mk ["a.ts"] 1 = {} := Except.ok.inj (Prod.mk.inj (hagain.symm.trans hidle)).1
  exact absurd hnone (by decide)

end Ratchet.UnusedImports
