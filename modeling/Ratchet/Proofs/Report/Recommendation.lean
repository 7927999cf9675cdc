import Ratchet.Proofs.Diagnostic.Tally
import Ratchet.Proofs.Number.Order
import Ratchet.Report.Recommendation

/-!
What a report recommends.

The recommendations come in five parts, each of which is told here by what it is to say and not by how it is found. All
but one are always as they should be. The share of the largest category is rounded to a binary number before it is
compared with a half, so a majority is passed over when it is so narrow that its share is rounded to a half; that takes
more than `2 ^ 53` diagnostics.
-/

namespace Ratchet.Report

variable {remaining : List (String × Int)} {phases : List Phase} {ds : List Diagnostic} {duration : Float}

/-! ### Attempts that did not go well -/

/-- Whether an attempt was reverted, timed out, failed or had a transform that raised something. -/
def troubled (p : Phase) : Bool := p.reverted || p.timeout || p.failed || p.transformError.any (· != "")

/-- The note about an attempt: the first of what went wrong. -/
inductive Noted : Phase → String → Prop
  | reverted {p : Phase} (h : p.reverted = true) : Noted p (attemptLabel p ++ " was reverted after +" ++
      toString p.increase ++ " diagnostics; review its transform before re-enabling it")
  | timedOut {p : Phase} (hr : p.reverted = false) (h : p.timeout = true) :
      Noted p (attemptLabel p ++ " timed out; raise the timeout or split the work")
  | failed {p : Phase} {e : String} (hr : p.reverted = false) (ht : p.timeout = false) (h : p.error = some e) :
      Noted p (attemptLabel p ++ " failed: " ++ e)
  | raised {p : Phase} {e : String} (hr : p.reverted = false) (ht : p.timeout = false) (hf : p.error = none)
      (h : p.transformError = some e) (he : e ≠ "") : Noted p (attemptLabel p ++ " transform raised: " ++ e)

/-- An attempt has a note just when it did not go well. -/
lemma attemptLine?_cases (p : Phase) :
    (troubled p = true ∧ ∃ line, attemptLine? p = some line ∧ Noted p line) ∨
      troubled p = false ∧ attemptLine? p = none := by
  unfold attemptLine? troubled Phase.failed
  rcases hr : p.reverted with _ | _
  · rcases ht : p.timeout with _ | _
    · rcases hf : p.error with _ | e
      · rcases hx : p.transformError with _ | e
        · exact .inr ⟨rfl, rfl⟩
        · by_cases he : e = ""
          · exact .inr ⟨by simp [he], by simp [he]⟩
          · exact .inl ⟨by simp [he], _, by simp [he], .raised hr ht hf hx he⟩
      · exact .inl ⟨rfl, _, rfl, .failed hr ht hf⟩
    · exact .inl ⟨rfl, _, rfl, .timedOut hr ht⟩
  · exact .inl ⟨rfl, _, rfl, .reverted hr⟩

/-- The notes are those about the attempts that did not go well, by induction on the attempts. -/
lemma forall₂_noted (phases : List Phase) :
    List.Forall₂ Noted (phases.filter troubled) (phases.filterMap attemptLine?) := by
  induction phases with
  | nil => exact .nil
  | cons p phases ih =>
    rcases attemptLine?_cases p with ⟨ht, line, hline, hnoted⟩ | ⟨ht, hline⟩
    · rw [List.filter_cons_of_pos ht, List.filterMap_cons_some hline]
      exact .cons hnoted ih
    · rw [List.filter_cons_of_neg (by simp [ht]), List.filterMap_cons_none hline]
      exact ih

/-! ### A category with more than half -/

/-- How many diagnostics are left. -/
def total (remaining : List (String × Int)) : Int := (remaining.map (·.2)).sum

/-- The remark about a category that has more than half of what is left. -/
def focusText (name : String) (count total : Int) : String :=
  name ++ " accounts for " ++ toString (wholePercent count total) ++
    "% of remaining diagnostics; focus remediation there"

/-- What is said of a category that has more than half of what is left, and what is said if none has. -/
inductive Focused (remaining : List (String × Int)) : List String → Prop
  | on {name : String} {count : Int} (h : (name, count) ∈ remaining) (hhalf : total remaining < 2 * count) :
      Focused remaining [focusText name count (total remaining)]
  | nowhere (h : ∀ x ∈ remaining, 2 * x.2 ≤ total remaining) : Focused remaining []

/-- A part is taken for more than half of a whole just when it exceeds a half by more than half a bit. -/
lemma isDominant_iff {count total : Int} (hc : 0 < count) (hle : count ≤ total) :
    isDominant count total = true ↔ total < 2 ^ 53 * (2 * count - total) := by
  obtain ⟨c, rfl⟩ := Int.eq_ofNat_of_zero_le hc.le
  obtain ⟨t, rfl⟩ := Int.eq_ofNat_of_zero_le (hc.le.trans hle)
  have hc' : 0 < c := by omega
  have hle' : c ≤ t := by omega
  have hquotient : Number.quotient? (c : Int) t = some (Number.nearest false c t) := by
    have hsign : ((decide ((c : Int) < 0) != decide ((t : Int) < 0)) && (c : Int) != 0) = false := by
      simp [show ¬ (c : Int) < 0 by omega, show ¬ (t : Int) < 0 by omega]
    simp only [Number.quotient?, hsign, Int.natAbs_natCast, Number.isFinite_nearest hc' hle', if_true]
  rw [isDominant, hquotient]
  dsimp only
  rw [decide_eq_true_eq, Number.half_lt_nearest_iff hc' hle']
  omega

/-- The largest entry is one of the entries, and none is larger, by induction on them. -/
lemma largest?_spec (e : String × Int) (r : List (String × Int)) :
    ∃ g, largest? (e :: r) = some g ∧ g ∈ e :: r ∧ ∀ x ∈ e :: r, x.2 ≤ g.2 := by
  refine ⟨_, rfl, ?_⟩
  induction r generalizing e with
  | nil => exact ⟨List.mem_singleton.2 rfl, fun x hx => by rw [List.mem_singleton.1 hx]; exact le_refl _⟩
  | cons y r ih =>
    rw [List.foldl_cons]
    by_cases hlt : e.2 < y.2
    · rw [if_pos hlt]
      obtain ⟨hmem, hle⟩ := ih y
      refine ⟨List.mem_cons_of_mem _ hmem, fun x hx => ?_⟩
      rcases List.mem_cons.1 hx with rfl | hx
      · exact hlt.le.trans (hle y List.mem_cons_self)
      · exact hle x hx
    · rw [if_neg hlt]
      obtain ⟨hmem, hle⟩ := ih e
      have hin : ∀ x ∈ e :: r, x ∈ e :: y :: r := fun x hx =>
        (List.mem_cons.1 hx).elim (fun h => h ▸ List.mem_cons_self) fun h => List.mem_cons_of_mem _ (List.mem_cons_of_mem _ h)
      refine ⟨hin _ hmem, fun x hx => ?_⟩
      rcases List.mem_cons.1 hx with rfl | hx
      · exact hle x List.mem_cons_self
      rcases List.mem_cons.1 hx with rfl | hx
      · exact (not_lt.1 hlt).trans (hle e List.mem_cons_self)
      · exact hle x (List.mem_cons_of_mem _ hx)

lemma le_total (hn : ∀ x ∈ remaining, 0 ≤ x.2) {x : String × Int} (hx : x ∈ remaining) : x.2 ≤ total remaining := by
  refine List.single_le_sum (fun n h => ?_) _ (List.mem_map_of_mem hx)
  obtain ⟨z, hz, rfl⟩ := List.mem_map.1 h
  exact hn z hz

/-- Two different entries have no more than all have together, by induction on the entries. -/
lemma add_le_total (hn : ∀ x ∈ remaining, 0 ≤ x.2) {x y : String × Int} (hx : x ∈ remaining) (hy : y ∈ remaining)
    (hne : x ≠ y) : x.2 + y.2 ≤ total remaining := by
  induction remaining with
  | nil => exact absurd hx List.not_mem_nil
  | cons e r ih =>
    have hr : ∀ z ∈ r, 0 ≤ z.2 := fun z hz => hn z (List.mem_cons_of_mem _ hz)
    have hcons : total (e :: r) = e.2 + total r := by simp [total]
    have he := hn e List.mem_cons_self
    rcases List.mem_cons.1 hx with hxe | hxr <;> rcases List.mem_cons.1 hy with hye | hyr
    · exact absurd (hxe.trans hye.symm) hne
    · have := le_total hr hyr
      rw [hxe]
      omega
    · have := le_total hr hxr
      rw [hye]
      omega
    · have := ih hr hxr hyr
      omega

/-- What is said of a majority if there is one, and that nothing is said if there is none. -/
lemma focusLine?_cases (hn : ∀ x ∈ remaining, 0 ≤ x.2) :
    (∃ name count, (name, count) ∈ remaining ∧ total remaining < 2 * count ∧
        (∀ x ∈ remaining, total remaining < 2 * x.2 → x = (name, count)) ∧
        focusLine? remaining = if total remaining < 2 ^ 53 * (2 * count - total remaining)
          then some (focusText name count (total remaining)) else none) ∨
      (∀ x ∈ remaining, 2 * x.2 ≤ total remaining) ∧ focusLine? remaining = none := by
  have htotal : (remaining.map (·.2)).foldr (· + ·) 0 = total remaining := rfl
  rcases remaining with _ | ⟨e, r⟩
  · exact .inr ⟨fun x hx => absurd hx List.not_mem_nil, rfl⟩
  obtain ⟨⟨name, count⟩, hlargest, hmem, hle⟩ := largest?_spec e r
  have hcount : 0 ≤ count ∧ count ≤ total (e :: r) := ⟨hn _ hmem, le_total hn hmem⟩
  have hline : focusLine? (e :: r) = if total (e :: r) = 0 then none else
      if isDominant count (total (e :: r)) then some (focusText name count (total (e :: r))) else none := by
    simp only [focusLine?, htotal, hlargest, beq_iff_eq]
    rfl
  by_cases hhalf : total (e :: r) < 2 * count
  · refine .inl ⟨name, count, hmem, hhalf, fun x hx hx2 => ?_, ?_⟩
    · by_contra hne
      have := add_le_total hn hx hmem hne
      have := hle x hx
      omega
    · rw [hline, if_neg (by omega)]
      simp only [isDominant_iff (show 0 < count by omega) hcount.2]
  · refine .inr ⟨fun x hx => ?_, ?_⟩
    · have := hle x hx
      dsimp only at this
      omega
    · rw [hline]
      split
      · rfl
      rename_i hpos
      -- A sum that is not zero has a part that is not zero, and none is larger than this one.
      have hc : 0 < count := by
        by_contra hc
        refine hpos (List.sum_eq_zero fun n h => ?_)
        obtain ⟨z, hz, rfl⟩ := List.mem_map.1 h
        have := hle z hz
        have := hn z hz
        dsimp only at *
        omega
      rw [if_neg]
      rw [isDominant_iff hc hcount.2]
      omega

/-! ### Files with many diagnostics, and long runs -/

/-- The files with more diagnostics than are worth a look, with how many they have: those with the most first, and of
those with equally many the one that comes first. -/
structure Hotspots (ds : List Diagnostic) (hs : List (String × Nat)) : Prop where
  mem_iff : ∀ x, x ∈ hs ↔ 10 < x.2 ∧ x.2 = (ds.map (·.file)).count x.1
  ranked : hs.Pairwise (Tally.Ranked (ds.map (·.file)))

/-- The remark about a file with many diagnostics. -/
def hotspotText (x : String × Nat) : String :=
  x.1 ++ " has " ++ toString x.2 ++ " diagnostics; consider refactoring it"

/-- The remarks about files are those about the files with many diagnostics. -/
lemma hotspotLines_eq (ds : List Diagnostic) : ∃ hs, Hotspots ds hs ∧ hotspotLines ds = hs.map hotspotText := by
  refine ⟨_, ⟨fun x => ?_, ?_⟩, rfl⟩
  · rw [Diagnostic.perFile, Tally.takeWhile_byCount, List.mem_filter, Tally.mem_byCount, decide_eq_true_eq]
    refine ⟨fun h => ⟨h.2, h.1.2⟩, fun h => ⟨⟨?_, h.2⟩, h.1⟩⟩
    rw [← List.count_pos_iff, ← h.2]
    exact (Nat.zero_lt_succ 9).trans h.1
  · rw [Diagnostic.perFile, Tally.takeWhile_byCount]
    exact (Tally.pairwise_byCount _).filter _

/-- There is only one number of files with many diagnostics. -/
lemma Hotspots.length_eq {hs hs' : List (String × Nat)} (h : Hotspots ds hs) (h' : Hotspots ds hs') :
    hs.length = hs'.length := by
  have hnodup : ∀ {hs}, Hotspots ds hs → hs.Nodup := fun h => h.ranked.imp fun hr heq => by
    rw [Tally.Ranked, heq] at hr
    omega
  refine ((List.perm_ext_iff_of_nodup (hnodup h) (hnodup h')).2 fun x => ?_).length_eq
  rw [h.mem_iff, h'.mem_iff]

/-- What is said of a run of more than five minutes, and of a shorter one. -/
inductive Timed (duration : Float) : List String → Prop
  | long (h : 300 < duration) : Timed duration
      ["Run took " ++ Number.fixed 0 duration ++ "s; consider a faster check command or fewer iterations"]
  | short (h : ¬ 300 < duration) : Timed duration []

lemma timed_longRunLine? (duration : Float) : Timed duration (longRunLine? duration).toList := by
  unfold longRunLine?
  split
  · exact .long ‹_›
  · exact .short ‹_›

lemma Timed.length_eq {last last' : List String} (h : Timed duration last) (h' : Timed duration last') :
    last.length = last'.length := by
  cases h with
  | long h => cases h' with
    | long => rfl
    | short hs => exact absurd h hs
  | short h => cases h' with
    | long hl => exact absurd hl h
    | short => rfl

/-! ### All recommendations -/

/-- How many diagnostics are left of a category. -/
def left (remaining : List (String × Int)) (c : Category) : Int := (remaining.lookup c.name).getD 0

/-- The categories of which diagnostics are left, in the order of the catalogue. -/
def leftOver (remaining : List (String × Int)) : List Category := Category.catalogue.filter (left remaining · ≠ 0)

lemma reviewLines_eq (remaining : List (String × Int)) :
    reviewLines remaining = (leftOver remaining).map fun c => reviewLine c.name (left remaining c) := by
  unfold reviewLines leftOver
  induction Category.catalogue with
  | nil => rfl
  | cons c cs ih =>
    by_cases h : left remaining c = 0
    · rw [List.filterMap_cons_none (by simpa [left] using h), List.filter_cons_of_neg (by simpa using h), ih]
    · rw [List.filterMap_cons_some (by rw [← left, if_neg (by simpa using h)]), List.filter_cons_of_pos (by simpa using h),
        List.map_cons, ih]

/-- What a report is to recommend: a review of each category that is left, a note about each attempt that did not go
well, a focus on the category that has more than half of what is left, a look at each file with many diagnostics, and a
remark about a long run. -/
structure Recommended (remaining : List (String × Int)) (phases : List Phase) (ds : List Diagnostic) (duration : Float)
    (lines : List String) : Prop where
  parts : ∃ notes focus hs last,
    lines = (leftOver remaining).map (fun c => reviewLine c.name (left remaining c)) ++ notes ++ focus ++
      hs.map hotspotText ++ last ∧
    List.Forall₂ Noted (phases.filter troubled) notes ∧ Focused remaining focus ∧ Hotspots ds hs ∧ Timed duration last

/-- Three of four diagnostics that are left are of one category. -/
def uneven : List (String × Int) := [("import-issues", 3), ("unused-code", 1)]

/-- One category has one diagnostic more than the other, and both have about `2 ^ 52`. -/
def narrow : List (String × Int) := [("import-issues", 2 ^ 52 + 1), ("unused-code", 2 ^ 52)]

end Ratchet.Report
