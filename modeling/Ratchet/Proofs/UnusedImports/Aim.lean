import Ratchet.Proofs.UnusedImports.Plan

/-!
Whether an edit hits the lines that it was pointed at.

The toolchain ends a line at a line feed, a carriage return or the two together (`counted`). An edit ends lines at the
other separators as well, so it hits what was pointed at where no such separator stands before the end of the last line
that is pointed at (`edits_hit`), and may hit another line where one does (`edits_miss`).
-/

namespace Ratchet.UnusedImports

open Act Text

variable {a : Assignment} {ts : List Target} {w w' u : World} {e : Edits} {root f : String} {fs : List String}
  {s : List Char} {l : Line}

/-! ### Lines as the toolchain counts them -/

/-- Cuts a text at line feeds and carriage returns; `acc` holds the reversed start of the current line. -/
def countedFrom (acc : List Char) : List Char → List Line
  | [] => if acc.isEmpty then [] else [⟨acc.reverse, []⟩]
  | '\r' :: '\n' :: s => ⟨acc.reverse, ['\r', '\n']⟩ :: countedFrom [] s
  | c :: s =>
    if c == '\r' || c == '\n' then ⟨acc.reverse, [c]⟩ :: countedFrom [] s else countedFrom (c :: acc) s

/-- The lines of a text as the toolchain counts them. -/
def counted (s : List Char) : List Line := countedFrom [] s

lemma flatMap_whole_countedFrom (acc s : List Char) : (countedFrom acc s).flatMap Line.whole = acc.reverse ++ s := by
  fun_induction countedFrom acc s with
  | case1 acc h => simp_all
  | case2 acc h => simp [Line.whole]
  | case3 acc s ih => simp [Line.whole, ih]
  | case4 acc c s _ h ih => simp [Line.whole, ih]
  | case5 acc c s _ h ih => simp [ih]

lemma parted_of_mem_countedFrom {acc : List Char} (hacc : ∀ c ∈ acc, (c == '\r' || c == '\n') = false)
    (hl : l ∈ countedFrom acc s) : Parted l := by
  have hrev : ∀ c ∈ acc.reverse, (c == '\r' || c == '\n') = false := fun c hc => hacc c (List.mem_reverse.1 hc)
  fun_induction countedFrom acc s with
  | case1 acc hempty => exact absurd hl List.not_mem_nil
  | case2 acc hempty =>
    obtain rfl := List.mem_singleton.1 hl
    exact ⟨hrev, List.forall_mem_nil _⟩
  | case3 acc s ih =>
    rcases List.mem_cons.1 hl with rfl | hl
    · exact ⟨hrev, by simp⟩
    · exact ih (List.forall_mem_nil _) hl (List.forall_mem_nil _)
  | case4 acc c s _ hbreak ih =>
    rcases List.mem_cons.1 hl with rfl | hl
    · exact ⟨hrev, List.forall_mem_singleton.2 hbreak⟩
    · exact ih (List.forall_mem_nil _) hl (List.forall_mem_nil _)
  | case5 acc c s _ hbreak ih =>
    have hacc' : ∀ d ∈ c :: acc, (d == '\r' || d == '\n') = false :=
      List.forall_mem_cons.2 ⟨Bool.not_eq_true _ ▸ hbreak, hacc⟩
    exact ih hacc' hl fun d hd => hacc' d (List.mem_reverse.1 hd)

lemma flatMap_whole_counted (s : List Char) : (counted s).flatMap Line.whole = s :=
  flatMap_whole_countedFrom [] s

lemma parted_of_mem_counted (hl : l ∈ counted s) : Parted l := parted_of_mem_countedFrom (List.forall_mem_nil _) hl

/-! ### What an edit is to leave -/

/-- What is to become of a line, and how many bindings are to go: its text is replaced before its ending, or it goes
together with its ending. -/
def aimedLine (ts : List Target) (l : Line) : List Char × Nat :=
  if ts.isEmpty || (rewritten ts l.body).removed == 0 then (l.whole, 0)
  else ((rewritten ts l.body).line.elim [] (· ++ l.ending), (rewritten ts l.body).removed)

/-- What is to become of a text, and how many bindings are to go. -/
def aimed (ts : List Target) (s : List Char) : List Char × Nat :=
  let edited := ((counted s).zipIdx 1).map fun (l, n) => aimedLine (onLine ts n) l
  (edited.flatMap (·.1), (edited.map (·.2)).sum)

/-- Whether the toolchain counts the lines as an edit does, up to each one that is pointed at. -/
def Counted (ts : List Target) (s : List Char) : Prop := ∀ t ∈ ts, (lines s).take t.line = (counted s).take t.line

instance (ts : List Target) (s : List Char) : Decidable (Counted ts s) :=
  inferInstanceAs (Decidable (∀ t ∈ ts, _))

lemma editLine_eq_aimedLine (h : Parted l) : editLine ts l.whole = aimedLine ts l := by
  rw [editLine_whole h, aimedLine]
  rcases (rewritten ts l.body).line with _ | b <;> rfl

/-- The lines from a number on, each edited with the targets of its own. -/
def editedFrom (ts : List Target) (k : ℕ) (ls : List Line) : List (List Char × Nat) :=
  (ls.zipIdx k).map fun (l, n) => editLine (onLine ts n) l.whole

@[simp] lemma editedFrom_nil (k : ℕ) : editedFrom ts k [] = [] := rfl

@[simp] lemma editedFrom_cons (k : ℕ) (ls : List Line) :
    editedFrom ts k (l :: ls) = editLine (onLine ts k) l.whole :: editedFrom ts (k + 1) ls := rfl

/-- Lines that no target points at stay. -/
lemma editedFrom_untargeted {k : ℕ} (h : ∀ t ∈ ts, t.line < k) (ls : List Line) :
    (editedFrom ts k ls).flatMap (·.1) = ls.flatMap Line.whole ∧ ((editedFrom ts k ls).map (·.2)).sum = 0 := by
  induction ls generalizing k with
  | nil => exact ⟨rfl, rfl⟩
  | cons l ls ih =>
    have hnone : onLine ts k = [] := List.filter_eq_nil_iff.2 fun t ht => by
      have := h t ht
      simp only [beq_iff_eq]
      omega
    obtain ⟨htext, hsum⟩ := ih fun t ht => Nat.lt_succ_of_lt (h t ht)
    rw [editedFrom_cons, hnone]
    exact ⟨congrArg (l.whole ++ ·) htext, by simpa [editLine] using hsum⟩

/-- Two ways to cut a text are edited alike when they cut it alike up to each line that is pointed at. -/
lemma editedFrom_congr {k : ℕ} {ls ls' : List Line}
    (h : ∀ t ∈ ts, k ≤ t.line → ls.take (t.line + 1 - k) = ls'.take (t.line + 1 - k))
    (hwhole : ls.flatMap Line.whole = ls'.flatMap Line.whole) :
    (editedFrom ts k ls).flatMap (·.1) = (editedFrom ts k ls').flatMap (·.1) ∧
      ((editedFrom ts k ls).map (·.2)).sum = ((editedFrom ts k ls').map (·.2)).sum := by
  induction ls generalizing k ls' with
  | nil =>
    rcases ls' with _ | ⟨l', ls'⟩
    · exact ⟨rfl, rfl⟩
    · have hpast : ∀ t ∈ ts, t.line < k := by
        intro t ht
        by_contra hk
        have hfirst := h t ht (not_lt.1 hk)
        rw [show t.line + 1 - k = (t.line - k) + 1 by omega] at hfirst
        cases hfirst
      obtain ⟨htext, hsum⟩ := editedFrom_untargeted hpast (l' :: ls')
      exact ⟨hwhole.trans htext.symm, hsum.symm⟩
  | cons l ls ih =>
    by_cases hpast : ∀ t ∈ ts, t.line < k
    · obtain ⟨htext, hsum⟩ := editedFrom_untargeted hpast (l :: ls)
      obtain ⟨htext', hsum'⟩ := editedFrom_untargeted hpast ls'
      exact ⟨htext.trans (hwhole.trans htext'.symm), hsum.trans hsum'.symm⟩
    · -- A target points at this line or a later one, so the two cuts have their first line in common.
      obtain ⟨t, ht, hk⟩ : ∃ t ∈ ts, k ≤ t.line := by simpa using hpast
      have hfirst := h t ht hk
      rw [show t.line + 1 - k = (t.line - k) + 1 by omega] at hfirst
      rcases ls' with _ | ⟨l', ls'⟩
      · cases hfirst
      obtain ⟨rfl, -⟩ := List.cons.inj hfirst
      have hrest : ∀ t ∈ ts, k + 1 ≤ t.line → ls.take (t.line + 1 - (k + 1)) = ls'.take (t.line + 1 - (k + 1)) := by
        intro t ht hk
        have hall := h t ht (by omega)
        rw [show t.line + 1 - k = (t.line + 1 - (k + 1)) + 1 by omega] at hall
        exact (List.cons.inj hall).2
      obtain ⟨htext, hsum⟩ := ih hrest (List.append_cancel_left hwhole)
      simp only [editedFrom_cons, List.flatMap_cons, List.map_cons, List.sum_cons, htext, hsum, and_self]

/-- **What an edit leaves is what it is to leave**, where lines are counted alike. -/
lemma edit_eq_aimed (h : Counted ts s) : edit ts s = aimed ts s := by
  have hmap : ((counted s).zipIdx 1).map (fun (l, n) => aimedLine (onLine ts n) l) = editedFrom ts 1 (counted s) := by
    refine List.map_congr_left fun x hx => ?_
    exact (editLine_eq_aimedLine (parted_of_mem_counted (List.fst_mem_of_mem_zipIdx hx))).symm
  have hwhole : (lines s).flatMap Line.whole = (counted s).flatMap Line.whole :=
    (flatMap_whole_lines s).trans (flatMap_whole_counted s).symm
  have hcongr := editedFrom_congr (k := 1) (fun t ht _ => h t ht) hwhole
  have hedit : edit ts s = ((editedFrom ts 1 (lines s)).flatMap (·.1), ((editedFrom ts 1 (lines s)).map (·.2)).sum) :=
    rfl
  rw [hedit, aimed, hmap]
  exact Prod.ext hcongr.1 hcongr.2

/-! ### Files -/

/-- How many bindings are to go from a file. -/
def lost (w : World) (root : String) (ts : List Target) (f : String) : ℕ :=
  ((textOf? w root f).map fun s => (aimed (ofFile ts f) s).2).getD 0

lemma outlook_eq_ok (hcounted : ∀ s ∈ textOf? w root f, Counted (ofFile ts f) s) (h : outlook w root ts f = .ok e) :
    e = if lost w root ts f = 0 then {} else ⟨[f], lost w root ts f⟩ := by
  rw [outlook] at h
  rcases hb : bytesOf? w root f with _ | b
  · rw [hb, Option.elim_none] at h
    rw [lost, textOf?, hb]
    exact (Except.ok.inj h).symm
  · rw [hb, Option.elim_some, tally] at h
    rcases hs : decode? b with _ | s
    · rw [hs] at h
      cases h
    · have htext : textOf? w root f = some s.toList := by rw [textOf?, hb, Option.bind_some, hs, Option.map_some]
      rw [hs] at h
      rw [lost, htext, Option.map_some, Option.getD_some, ← edit_eq_aimed (hcounted _ htext)]
      exact (Except.ok.inj h).symm

/-- What editing files comes to: the files that lose something, and how much all of them lose. -/
lemma outlooks_eq_ok (hcounted : ∀ f ∈ fs, ∀ s ∈ textOf? w root f, Counted (ofFile ts f) s)
    (h : outlooks w root ts fs = .ok e) :
    e.files = fs.filter (fun f => lost w root ts f ≠ 0) ∧ e.applied = (fs.map (lost w root ts)).sum := by
  induction fs generalizing e with
  | nil =>
    obtain rfl := Except.ok.inj h
    exact ⟨rfl, rfl⟩
  | cons f fs ih =>
    obtain ⟨hf, hfs⟩ := List.forall_mem_cons.1 hcounted
    rw [outlooks] at h
    rcases hd : outlook w root ts f with x | d
    · rw [hd] at h
      cases h
    rcases hr : outlooks w root ts fs with x | r
    · rw [hd, hr] at h
      cases h
    rw [hd, hr] at h
    obtain rfl := Except.ok.inj h
    obtain ⟨hfiles, happlied⟩ := ih hfs hr
    obtain rfl := outlook_eq_ok hf hd
    by_cases hzero : lost w root ts f = 0
    · simp [hzero, hfiles, happlied]
    · simp [hzero, hfiles, happlied]

lemma Retold.bytesOf?_eq_none (h : Retold w w') : bytesOf? w' root f = none ↔ bytesOf? w root f = none := by
  unfold bytesOf?
  rw [h.here]
  rcases Workspace.resolve w.here root f with _ | path
  · exact Iff.rfl
  dsimp only
  rcases h.files (Path.lexical path) with hsame | ⟨hthen, hnow⟩
  · rw [hsame]
  · exact iff_of_false (fun hnone => by rw [hnone] at hnow; exact Bool.false_ne_true hnow)
      (fun hnone => by rw [hnone] at hthen; exact Bool.false_ne_true hthen)

/-- What editing files leaves alone: whatever is no file that is named and belongs to the workspace. -/
lemma editFiles_beside (hdry : a.dryRun = false) (h : runOn w (editFiles a ts fs) = (.ok e, w')) :
    World.Agree (fun p => ∀ f ∈ fs, bytesOf? w a.root f ≠ none → p ≠ placeOf w.here a.root f) w w' := by
  induction fs generalizing w w' e with
  | nil =>
    obtain ⟨-, rfl⟩ := Prod.mk.inj h
    exact .refl w
  | cons f fs ih =>
    obtain ⟨d, r, u, hd, hr, -⟩ := editFiles_cons h
    have hedited := editFile_ok hdry hd
    have hretold : Retold w u := hedited.retold
    have hfirst : World.Agree (fun p => bytesOf? w a.root f ≠ none → p ≠ placeOf w.here a.root f) w u := by
      cases hedited with
      | absent _ _ hsame =>
        rw [hsame]
        exact .refl w
      | kept _ _ _ _ hsame =>
        rw [hsame]
        exact .refl w
      | written s htext _ _ hbeside _ =>
        refine hbeside.mono fun p hp => hp fun hnone => ?_
        rw [textOf?, hnone] at htext
        cases htext
    refine (hfirst.mono fun p hp => hp f List.mem_cons_self).trans ((ih hr).mono fun p hp g hg hthere => ?_)
    rw [hretold.here]
    exact hp g (List.mem_cons_of_mem f hg) fun hnone => hthere (hretold.bytesOf?_eq_none.2 hnone)

/-- **An edit hits what it was pointed at.** The files that the diagnostics point at lie at different places, and their
lines are counted alike up to each line that is pointed at. Then each file is left as it is to be left, nothing else is
touched, and what the run says of itself is what was to go. -/
theorem edits_hit (hdry : a.dryRun = false) (hrun : runOn w (edits a) = (.ok e, w'))
    (happart : (targetFiles (targetsOf a)).Pairwise fun f g => placeOf w.here a.root f ≠ placeOf w.here a.root g)
    (hcounted : ForTexts a w Counted) :
    (∀ f ∈ targetFiles (targetsOf a),
      textOf? w' a.root f = (textOf? w a.root f).map fun s => (aimed (ofFile (targetsOf a) f) s).1) ∧
    World.Agree (fun p => ∀ f ∈ targetFiles (targetsOf a), bytesOf? w a.root f ≠ none →
      p ≠ placeOf w.here a.root f) w w' ∧
    e.files = (targetFiles (targetsOf a)).filter (fun f => lost w a.root (targetsOf a) f ≠ 0) ∧
    e.applied = ((targetFiles (targetsOf a)).map (lost w a.root (targetsOf a))).sum := by
  have hunrepeated : Unrepeated a.root (targetsOf a) w (targetFiles (targetsOf a)) :=
    happart.imp fun hne heq => absurd heq hne
  have houtlooks : outlooks w a.root (targetsOf a) (targetFiles (targetsOf a)) = .ok e := by
    rw [← editFiles_eq_outlooks hdry hunrepeated]
    exact congrArg Prod.fst hrun
  obtain ⟨hfiles, happlied⟩ := outlooks_eq_ok hcounted houtlooks
  refine ⟨fun f hf => ?_, editFiles_beside hdry hrun, hfiles, happlied⟩
  rcases (editFiles_ok hdry hrun happart).2 f hf with ⟨hnone, hnone'⟩ | ⟨s, htext, htext'⟩
  · rw [textOf?, textOf?, hnone, hnone']
    rfl
  · rw [htext', htext, Option.map_some]
    exact congrArg (fun x => some x.1) (edit_eq_aimed (hcounted f hf s htext))

/-- Lines that end in three ways, two of which are pointed at. -/
theorem edits_hit_endings :
    let w := holding "/* */\rimport a from 'x';\r\nimport \x7b b, c \x7d from 'y';\nb();\n"
    let a := finding [("TS6192", 2, "All imports in import declaration are unused."),
      ("TS6133", 3, "'c' is declared but its value is never read.")]
    ∃ w₁, runOn w (edits a) = (.ok ⟨["a.ts"], 2⟩, w₁) ∧
      textOf? w₁ "/w" "a.ts" = some "/* */\rimport \x7b b \x7d from 'y';\nb();\n".toList := by
  intro w a
  have hfirst : (runOn w (edits a)).1.toOption = some ⟨["a.ts"], 2⟩ := by decide +kernel
  obtain ⟨w₁, hrun⟩ := of_toOption hfirst
  have happart : (targetFiles (targetsOf a)).Pairwise fun f g => placeOf w.here a.root f ≠ placeOf w.here a.root g := by
    decide
  have hcounted : ForTexts a w Counted := by decide
  exact ⟨w₁, hrun, ((edits_hit rfl hrun happart hcounted).1 "a.ts" (by decide)).trans (by decide)⟩

/-- Where a form feed stands before the line that is pointed at, the line above it goes, and the import that is used
with it. -/
theorem edits_miss :
    let text := "/*\x0c*/\nimport a from 'x';\nimport b from 'y';\na();\n"
    let w := holding text
    let a := finding [("TS6192", 3, "All imports in import declaration are unused.")]
    ∃ w₁, runOn w (edits a) = (.ok ⟨["a.ts"], 1⟩, w₁) ∧
      textOf? w₁ "/w" "a.ts" = some "/*\x0c*/\nimport b from 'y';\na();\n".toList ∧
      aimed (targetsOf a) text.toList = ("/*\x0c*/\nimport a from 'x';\na();\n".toList, 1) := by
  intro text w a
  have h : (runOn w (do
      let e ← edits a
      let w₁ ← get
      return (e, textOf? w₁ "/w" "a.ts"))).1.toOption =
        some (⟨["a.ts"], 1⟩, some "/*\x0c*/\nimport b from 'y';\na();\n".toList) := by
    decide +kernel
  obtain ⟨u, h⟩ := of_toOption h
  obtain ⟨e, w₁, hrun, h⟩ := of_bind_ok h
  rw [runOn_bind, runOn_get] at h
  obtain ⟨hresult, -⟩ := Prod.mk.inj h
  obtain ⟨rfl, hleft⟩ := Prod.mk.inj (Except.ok.inj hresult)
  exact ⟨w₁, hrun, hleft, by decide⟩

end Ratchet.UnusedImports
