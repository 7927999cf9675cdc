import Ratchet.Proofs.Backup.Confined
import Ratchet.Proofs.Backup.History

/-!
Pruning by age.

A span is taken from an instant on the instant's own clock, so the limit lies exactly the span before it in universal
time, wherever the clock stands, as long as the calendar has a reading for it. Then the backups that are older than
the limit are deleted with all that stands in their directories, and nothing else changes. A limit that lies before
the calendar is an error, although no backup can be older than it.
-/

namespace Ratchet.Archive

open Act

variable {a : Archive} {w : World} {ever kept bs : List Backup} {limit : Instant} {span : Int}

/-! ### What is deleted -/

/-- What is to come of some backups in an archive when the old ones are deleted: these are gone with all that stood in
their directories, the others are listed, and nothing else has changed. -/
structure Weeded (a : Archive) (old : Backup → Bool) (bs : List Backup) (w w' : World) : Prop where
  gone : ∀ b ∈ bs, old b = true → ∀ p, a.placeOf b.name <+: p → w'.tree.get? p = none
  spared : ∀ b ∈ bs, old b = false → ∀ p, a.placeOf b.name <+: p → w'.tree.get? p = w.tree.get? p
  others : ∀ p, (∀ b ∈ bs, old b = true → ¬ a.placeOf b.name <+: p) → w'.tree.get? p = w.tree.get? p
  rest : w' = { w with tree := w'.tree }
  listed : runOn w' a.list = (.ok (bs.filter (!old ·)), w')

/-- The directories of two backups lie apart. -/
lemma eq_of_prefix_placeOf {m n : String} {p : Place} (hm : a.placeOf m <+: p) (hn : a.placeOf n <+: p) : m = n := by
  have heq : a.placeOf m = a.placeOf n := by
    rcases List.prefix_or_prefix_of_prefix hm hn with h | h
    · exact h.eq_of_length (by simp [placeOf])
    · exact (h.eq_of_length (by simp [placeOf])).symm
  simpa [placeOf] using heq

/-- What stands in a tree without the old ones of some backups. -/
lemma get?_weed {t : Tree} {p : Place} : (a.weed limit bs t).get? p =
    if ∃ b ∈ bs, (!Recent limit b) = true ∧ a.placeOf b.name <+: p then none else t.get? p := by
  rw [weed, get?_without]
  refine if_congr ⟨?_, ?_⟩ rfl rfl
  · rintro ⟨n, hn, hp⟩
    obtain ⟨b, hb, rfl⟩ := List.mem_map.1 hn
    exact ⟨b, (List.mem_filter.1 hb).1, (List.mem_filter.1 hb).2, hp⟩
  · rintro ⟨b, hb, hold, hp⟩
    exact ⟨b.name, List.mem_map_of_mem (List.mem_filter.2 ⟨hb, hold⟩), hp⟩

/-- Deleting the backups that are not recent leaves what it should. -/
lemma Holds.weeded (ha : Path.Clear a.root) (hl : limit.offset.isSome) (h : a.Holds w bs) :
    a.Weeded (fun b => !Recent limit b) bs w { w with tree := a.weed limit bs w.tree } := by
  have hothers : ∀ p, (∀ b ∈ bs, (!Recent limit b) = true → ¬ a.placeOf b.name <+: p) →
      (a.weed limit bs w.tree).get? p = w.tree.get? p := fun p hp => by
    rw [get?_weed, if_neg]
    rintro ⟨b, hb, hold, hpre⟩
    exact hp b hb hold hpre
  refine ⟨fun b hb hold p hp => ?_, fun b hb hold p hp => hothers p fun c hc hcold hpre => ?_, hothers, rfl, ?_⟩
  · rw [get?_weed, if_pos ⟨b, hb, hold, hp⟩]
  · -- Both directories lead to the place, so they are one, and so are their backups.
    obtain rfl : c = b := by
      have hfound := find?_name h.named hc
      rw [eq_of_prefix_placeOf hpre hp, find?_name h.named hb] at hfound
      exact (Option.some.inj hfound).symm
    rw [hold] at hcold
    exact absurd hcold nofun
  · simp only [Bool.not_not]
    exact (Holds.deleteOlder ha hl (List.nil_append bs ▸ h)).2.list ha

/-! ### The limit -/

/-- Whether a backup is older than a span, seen from an instant. -/
def Older (i : Instant) (span : Int) (b : Backup) : Bool := b.timestamp.universal < i.universal - span

section
variable {now : Option Instant} {i : Instant}

/-- Pruning with a limit that the calendar has. -/
lemma Holds.runOn_pruneOlder (ha : Path.Clear a.root) (h : a.Holds w bs) (hi : now.getD w.now = i)
    (hoffset : i.offset.isSome) (hlimit : Instant.inCalendar (i.reading - span) = true) :
    ∃ w', runOn w (a.pruneOlder span now) = (.ok (bs.countP (Older i span)), w') ∧
      a.Weeded (Older i span) bs w w' := by
  obtain ⟨limit, hl⟩ : ∃ limit : Instant, limit = { i with reading := i.reading - span } := ⟨_, rfl⟩
  have hsome : limit.offset.isSome := by rw [hl]; exact hoffset
  have hbefore : Span.before i span = .ok limit := by rw [Span.before, if_pos hlimit, hl]
  have huniversal : limit.universal = i.universal - span := by
    simp only [hl, Instant.universal]
    omega
  have holder : (fun b => !Recent limit b) = Older i span := by
    funext b
    rw [Recent, Older, huniversal, ← decide_not, decide_eq_decide]
    omega
  have hrun : runOn w (a.pruneOlder span now) = runOn w (Archive.deleteOlder limit bs) := by
    rw [Archive.pruneOlder, runOn_bind, runOn_get]
    dsimp only
    rw [hi, runOn_bind, runOn_ofResult, hbefore]
    dsimp only
    rw [runOn_bind_ok _ (h.list ha)]
  rw [hrun, (Holds.deleteOlder ha hsome (List.nil_append bs ▸ h)).1, ← holder]
  exact ⟨_, rfl, h.weeded ha hsome⟩

/-- Pruning with a limit that the calendar does not have. -/
lemma runOn_pruneOlder_early (hi : now.getD w.now = i) (hlimit : Instant.inCalendar (i.reading - span) = false) :
    runOn w (a.pruneOlder span now) = (.error (.overflow "date value out of range"), w) := by
  rw [Archive.pruneOlder, runOn_bind, runOn_get]
  dsimp only
  rw [runOn_bind, runOn_ofResult, hi, Span.before, if_neg (by simp [hlimit])]

/-- **Pruning by age is exact unless its limit lies before the calendar.** Seen from any instant of the calendar with an
offset, and for any span, the backups are deleted that were made earlier than the instant less the span, their number is
returned, and the others and everything else are left, just when the instant's clock has a reading for the limit. With
an earlier limit nothing is deleted, but it is an error. -/
theorem History.ages_iff {w₀ : World} {root workspace : String}
    (h : History (Archive.at w₀.here root workspace) w ever kept) (hi : now.getD w.now = i)
    (hoffset : i.offset.isSome) (hreading : Instant.inCalendar i.reading = true) (hspan : 0 ≤ span) :
    ((∃ w', runOn w ((Archive.at w₀.here root workspace).pruneOlder span now) =
          (.ok (kept.countP (Older i span)), w') ∧
        (Archive.at w₀.here root workspace).Weeded (Older i span) kept w w') ↔
      Instant.firstReading ≤ i.reading - span) ∧
    (i.reading - span < Instant.firstReading →
      runOn w ((Archive.at w₀.here root workspace).pruneOlder span now) =
        (.error (.overflow "date value out of range"), w)) := by
  obtain ⟨ha, hws⟩ := clear_at w₀ root workspace
  obtain ⟨hheld, -⟩ := h.holds ha hws
  have hearly : i.reading - span < Instant.firstReading →
      runOn w ((Archive.at w₀.here root workspace).pruneOlder span now) =
        (.error (.overflow "date value out of range"), w) := fun hlt =>
    runOn_pruneOlder_early hi
      (by simp only [Instant.inCalendar, Bool.and_eq_false_iff, decide_eq_false_iff_not]; omega)
  refine ⟨⟨?_, fun hle => ?_⟩, hearly⟩
  · rintro ⟨w', hr, -⟩
    by_contra hlt
    rw [hearly (by omega)] at hr
    cases (Prod.mk.inj hr).1
  · refine hheld.runOn_pruneOlder ha hi hoffset ?_
    simp only [Instant.inCalendar, Bool.and_eq_true, decide_eq_true_eq] at hreading ⊢
    omega

end

/-! ### A backup made just now -/

/-- A microsecond after the workshop's time, on a clock two hours ahead. -/
def soon : Instant := ⟨workshop.now.reading + 7200 * Instant.second + 1, some 7200⟩

/-- A backup was made of no file. -/
lemma made_workshop : ∃ b w, runOn workshop (shelf.create [] "") = (.ok b, w) ∧ History shelf w [b] [b] ∧
    b.timestamp = workshop.now := by
  obtain ⟨b, w, -, -, -, hb, -⟩ := emptied_steps
  obtain ⟨n, hassembled⟩ := create_ok clear_shelf.1 clear_shelf.2 hb
  exact ⟨b, w, hb, history_workshop.made timely_workshop hb, by rw [hassembled.said]⟩

/-- A backup that was made a microsecond ago is deleted when nothing is to be older than now. -/
theorem ages_iff_soon : ∃ b w w', History shelf w [b] [b] ∧ soon.offset.isSome = true ∧
    Instant.inCalendar soon.reading = true ∧ runOn w (shelf.pruneOlder 0 (some soon)) = (.ok 1, w') ∧
    w'.tree.get? (shelf.placeOf b.name) = none ∧ runOn w' shelf.list = (.ok [], w') := by
  obtain ⟨b, w, -, h, htime⟩ := made_workshop
  have hold : Older soon 0 b = true := by
    rw [Older, htime]
    decide
  obtain ⟨w', hr, hweeded⟩ := (History.ages_iff h (Option.getD_some ..) (by decide) (by decide) (le_refl 0)).1.2
    (by decide : Instant.firstReading ≤ soon.reading - 0)
  have hlist := hweeded.listed
  rw [List.countP_cons_of_pos hold, List.countP_nil] at hr
  rw [List.filter_cons_of_neg (by simp [hold]), List.filter_nil] at hlist
  exact ⟨b, w, w', h, by decide, by decide, hr, hweeded.gone b (by simp) hold _ (List.prefix_refl _), hlist⟩

/-- Nothing is as old as three thousand years, but pruning what is older is an error. -/
theorem overflows_soon : ∃ b w, runOn workshop (shelf.create [] "") = (.ok b, w) ∧
    Older soon (100000000000 * Instant.second) b = false ∧
    runOn w (shelf.pruneOlder (100000000000 * Instant.second) (some soon)) =
      (.error (.overflow "date value out of range"), w) := by
  obtain ⟨b, w, hb, -, htime⟩ := made_workshop
  refine ⟨b, w, hb, ?_, runOn_pruneOlder_early (Option.getD_some ..) (by decide)⟩
  rw [Older, htime]
  decide

end Ratchet.Archive
