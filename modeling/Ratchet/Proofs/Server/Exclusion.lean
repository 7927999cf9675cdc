import Ratchet.Proofs.Acts
import Ratchet.Server

/-!
One run at a time.

A server answers many calls at once. A call for a run goes through stages: its body is read and the settings are built,
the run is acquired or refused, the run ends with a report or a fault, and the run is released. `Handling.next` is one
such stage, and the stages one after another are what the server does with a single call (`runOn_startRun`). Here the
stages of any number of calls come in any order, and the world changes between them as it likes.

A release names no holder: it frees the tracker whoever holds it. What carries the exclusion is a count: at every moment
the calls that hold the run are one if the tracker is taken and none if it is free.
-/

namespace Ratchet.Server

open Act

/-! ### Stages of a call -/

/-- How far a call for a run has come. -/
inductive Handling
  /-- It has come in. -/
  | asked (body : Option Datum)
  /-- Its settings are built. -/
  | ready (s : Settings)
  /-- It has acquired the run. -/
  | going (s : Settings)
  /-- Its run has ended and is not released yet. -/
  | ended (r : Except Fault Report)
  | answered (r : Reply)

/-- What a body asks for, or the answer to one that is malformed. -/
def asking : Option Datum → Except Reply RunRequest
  | none => .error (.malformed [⟨["body"], .missing⟩])
  | some (.map es) => match RunRequest.ofEntries es with
    | .ok r => .ok r
    | .flawed is => .error (.malformed (is.map (.under "body")))
  | some _ => .error (.malformed [⟨["body"], .modelAttributesType⟩])

/-- The answer to a call while another run goes on. -/
def busy : Reply := .refusal 409 "A remediation run is already in progress"

/-- The answer to a call whose run has ended. -/
def conclusion : Except Fault Report → Reply
  | .ok r => .report r
  | .error f => .refusal 500 ("Orchestrator error: " ++ f.text)

/-- What a call for a run comes to with its settings: a fault of the configuration is answered as such. -/
def built : Except Fault Settings → Handling
  | .ok s => .ready s
  | .error f => .answered (if f.kind == .config then refusalOf f else .internalError)

namespace Handling

/-- Whether a call has acquired the run and not released it. -/
def holds : Handling → Bool
  | going _ | ended _ => true
  | asked _ | ready _ | answered _ => false

/-- Whether a call has its answer. -/
def done : Handling → Bool
  | answered _ => true
  | asked _ | ready _ | going _ | ended _ => false

/-- What the next stage of a call releases. -/
def releasing : Handling → List (Except Fault Report)
  | ended r => [r]
  | asked _ | ready _ | going _ | answered _ => []

/-- The next stage of a call. -/
def next (defaults : Defaults) : Handling → Keeping Tracker Handling
  | asked body => match asking body with
    | .error a => return answered a
    | .ok r => do return built (← outcome (beside (Settings.load defaults r.projectPath none r.said)))
  | ready s => do
    let (free, t) := (← kept).acquire none
    if free then
      keep fun _ => t
      return going s
    else return answered busy
  | going s => do return ended (← outcome (beside (Run.withSettings defaults s)))
  | ended r => do
    keep (·.release r.toOption)
    return answered (conclusion r)
  | answered r => return answered r

end Handling

variable {defaults : Defaults} {t : Tracker} {w : World} {s : Settings}

lemma runOn_next_malformed {body : Option Datum} {a : Reply} (h : asking body = .error a) :
    runOn (t, w) ((Handling.asked body).next defaults) = (.ok (.answered a), (t, w)) := by
  rw [Handling.next, h]
  rfl

lemma runOn_next_asked {body : Option Datum} {r : RunRequest} (h : asking body = .ok r) :
    runOn (t, w) ((Handling.asked body).next defaults) =
      (.ok (built (runOn w (Settings.load defaults r.projectPath none r.said)).1),
        (t, (runOn w (Settings.load defaults r.projectPath none r.said)).2)) := by
  rw [Handling.next, h]
  rfl

lemma runOn_next_free (h : t.active = none) : runOn (t, w) ((Handling.ready s).next defaults) =
    (.ok (.going s), ({ t with active := some none }, w)) := by
  simp only [Handling.next, runOn_bind, runOn_kept, Tracker.acquire, h, if_true, runOn_keep, runOn_pure]

/-- A call that comes while another run goes on is refused, and nothing else happens. -/
lemma runOn_next_taken (h : t.active.isSome = true) : runOn (t, w) ((Handling.ready s).next defaults) =
    (.ok (.answered busy), (t, w)) := by
  obtain ⟨o, ho⟩ := Option.isSome_iff_exists.1 h
  simp only [Handling.next, runOn_bind, runOn_kept, Tracker.acquire, ho, Bool.false_eq_true, if_false, runOn_pure]

lemma runOn_next_going : runOn (t, w) ((Handling.going s).next defaults) =
    (.ok (.ended (runOn w (Run.withSettings defaults s)).1), (t, (runOn w (Run.withSettings defaults s)).2)) := rfl

lemma runOn_next_ended (r : Except Fault Report) : runOn (t, w) ((Handling.ended r).next defaults) =
    (.ok (.answered (conclusion r)), (t.release r.toOption, w)) := rfl

lemma runOn_next_answered (r : Reply) : runOn (t, w) ((Handling.answered r).next defaults) =
    (.ok (.answered r), (t, w)) := rfl

/-! ### One call alone -/

lemma reading_eq {σ : Type} (body : Option Datum) (go : RunRequest → Doing σ Reply) :
    reading RunRequest.ofEntries body go = match asking body with
      | .ok r => go r
      | .error a => return a := by
  unfold reading asking
  rcases body with _ | d
  · rfl
  · cases d with
    | map es =>
      dsimp only
      rcases RunRequest.ofEntries es with r | is
      · rfl
      · rfl
    | _ => rfl

/-- What becomes of a call for a run: its answer, or that of an internal error when the server has none of its own. -/
def replied : Except Fault Reply × (Tracker × World) → Except Fault Handling × (Tracker × World)
  | (.ok r, x) => (.ok (.answered r), x)
  | (.error _, x) => (.ok (.answered .internalError), x)

/-- A call that is answered stays so. -/
lemma runOn_stages_answered (r : Reply) : runOn (t, w) (do
    let h ← (Handling.answered r).next defaults
    let h ← h.next defaults
    h.next defaults) = (.ok (.answered r), (t, w)) := rfl

/-- **The stages of a call, one after another, are what the server does with it.** -/
theorem runOn_startRun (body : Option Datum) : runOn (t, w) (do
    let h ← (Handling.asked body).next defaults
    let h ← h.next defaults
    let h ← h.next defaults
    h.next defaults) = replied (runOn (t, w) (startRun defaults body)) := by
  rw [startRun, reading_eq]
  rcases hbody : asking body with a | r
  · rw [runOn_bind_ok _ (runOn_next_malformed hbody), runOn_stages_answered]
    rfl
  · rw [runOn_bind_ok _ (runOn_next_asked hbody)]
    simp only [answering, runOn_bind (outcome _), runOn_outcome, runOn_beside]
    rcases runOn w (Settings.load defaults r.projectPath none r.said) with ⟨f | s, w'⟩
    · simp only [built, runOn_stages_answered]
      split
      · rfl
      · rfl
    · simp only [built, makeRun, runOn_bind kept, runOn_kept]
      by_cases hfree : t.active = none
      · rw [runOn_bind_ok _ (runOn_next_free hfree), runOn_bind_ok _ runOn_next_going, runOn_next_ended]
        simp only [Tracker.acquire, hfree, if_true, runOn_bind, runOn_keep, runOn_outcome, runOn_beside]
        rcases runOn w' (Run.withSettings defaults s) with ⟨f | report, w''⟩
        · rfl
        · rfl
      · obtain ⟨o, ho⟩ := Option.ne_none_iff_exists'.1 hfree
        rw [runOn_bind_ok _ (runOn_next_taken (by rw [ho]; rfl))]
        simp only [Tracker.acquire, ho, Bool.false_eq_true, if_false]
        rfl

/-! ### Calls side by side -/

/-- What one call does to the tracker and to how far it has come. -/
inductive Moves (defaults : Defaults) : Tracker → Handling → Tracker → Handling → Prop
  /-- Its next stage, in the world as it happens to be. -/
  | next {t : Tracker} {w : World} {h h' : Handling} {x : Tracker × World}
      (hrun : runOn (t, w) (h.next defaults) = (.ok h', x)) : Moves defaults t h x.1 h'
  /-- Its run ends. Other calls have acted on the same world meanwhile, so nothing is said of what it comes to. -/
  | finish (t : Tracker) (s : Settings) (r : Except Fault Report) : Moves defaults t (.going s) t (.ended r)
  /-- Its run gets on, and that is shown. -/
  | shown (t : Tracker) (s : Settings) (o : Overview) (htaken : t.active.isSome = true) :
      Moves defaults t (.going s) { t with active := some (some o) } (.going s)

/-- Calls side by side on one server. -/
structure Site where
  tracker : Tracker := {}
  calls : List Handling := []
  /-- What the released runs had come to, the last one first. -/
  released : List (Except Fault Report) := []

/-- What happens on a server. -/
inductive Step (defaults : Defaults) : Site → Site → Prop
  /-- A call for a run comes in. -/
  | arrive (c : Site) (body : Option Datum) : Step defaults c { c with calls := c.calls ++ [.asked body] }
  /-- A call for a run gets on. -/
  | move {c : Site} {i : Nat} {h h' : Handling} {t' : Tracker} (hi : c.calls[i]? = some h)
      (hmove : Moves defaults c.tracker h t' h') :
      Step defaults c { tracker := t', calls := c.calls.set i h', released := h.releasing ++ c.released }
  /-- A call for something else is answered. -/
  | other {c : Site} {w : World} {call : Call} {route : Route} {r : Except Fault Reply} {x : Tracker × World}
      (hroute : route ≠ .runs) (hrun : runOn (c.tracker, w) (answer defaults call route) = (r, x)) :
      Step defaults c { c with tracker := x.1 }

/-- What a server comes to. -/
inductive Reachable (defaults : Defaults) : Site → Prop
  | opened : Reachable defaults {}
  | step {c c' : Site} (h : Reachable defaults c) (hstep : Step defaults c c') : Reachable defaults c'

/-- The tracker is taken when one call holds the run, and free when none does; no more than one ever holds it. The last
report is that of the last run released that had come to one. -/
structure Exclusive (c : Site) : Prop where
  holders : c.calls.countP Handling.holds = if c.tracker.active.isSome then 1 else 0
  last : c.tracker.last = c.released.findSome? Except.toOption

/-- What one move of a call does to the tracker: nothing but what is shown of the run, or it acquires a free one, or it
releases what it holds. -/
lemma moves_cases {t' : Tracker} {h h' : Handling} (hm : Moves defaults t h t' h') :
    (h'.holds = h.holds ∧ h.releasing = [] ∧ t'.active.isSome = t.active.isSome ∧ t'.last = t.last) ∨
    (h.holds = false ∧ h'.holds = true ∧ h.releasing = [] ∧ t.active = none ∧ t' = { t with active := some none }) ∨
    ∃ r, h.holds = true ∧ h'.holds = false ∧ h.releasing = [r] ∧ t' = t.release r.toOption := by
  cases hm with
  | finish s r => exact .inl ⟨rfl, rfl, rfl, rfl⟩
  | shown s o htaken => exact .inl ⟨rfl, rfl, htaken.symm, rfl⟩
  | @next w _ _ x hrun =>
    cases h with
    | asked body =>
      rcases hbody : asking body with a | r
      · rw [runOn_next_malformed hbody] at hrun
        obtain ⟨⟨⟩, ⟨⟩⟩ := Prod.mk.inj hrun
        exact .inl ⟨rfl, rfl, rfl, rfl⟩
      · rw [runOn_next_asked hbody] at hrun
        obtain ⟨hh, rfl⟩ := Prod.mk.inj hrun
        refine .inl ⟨?_, rfl, rfl, rfl⟩
        rw [← Except.ok.inj hh]
        rcases (runOn w (Settings.load defaults r.projectPath none r.said)).1 with f | s
        · rfl
        · rfl
    | ready s =>
      rcases hactive : t.active with _ | o
      · rw [runOn_next_free hactive] at hrun
        obtain ⟨⟨⟩, ⟨⟩⟩ := Prod.mk.inj hrun
        exact .inr (.inl ⟨rfl, rfl, rfl, rfl, rfl⟩)
      · rw [runOn_next_taken (by rw [hactive]; rfl)] at hrun
        obtain ⟨⟨⟩, ⟨⟩⟩ := Prod.mk.inj hrun
        exact .inl ⟨rfl, rfl, by rw [hactive], rfl⟩
    | going s =>
      rw [runOn_next_going] at hrun
      obtain ⟨⟨⟩, ⟨⟩⟩ := Prod.mk.inj hrun
      exact .inl ⟨rfl, rfl, rfl, rfl⟩
    | ended r =>
      rw [runOn_next_ended] at hrun
      obtain ⟨⟨⟩, ⟨⟩⟩ := Prod.mk.inj hrun
      exact .inr (.inr ⟨r, rfl, rfl, rfl, rfl⟩)
    | answered r =>
      rw [runOn_next_answered] at hrun
      obtain ⟨⟨⟩, ⟨⟩⟩ := Prod.mk.inj hrun
      exact .inl ⟨rfl, rfl, rfl, rfl⟩

/-- Calls for anything but a run leave the tracker as it is. -/
lemma answer_tracker {call : Call} {route : Route} (hroute : route ≠ .runs) :
    (runOn (t, w) (answer defaults call route)).2.1 = t := by
  cases route with
  | runs => exact absurd rfl hroute
  | health => rfl
  | status => rfl
  | report => rfl
  | backups => rfl
  | prune => rfl
  | restore name => rfl

/-- What happens on a server keeps the exclusion. -/
lemma Exclusive.step {c c' : Site} (hc : Exclusive c) (hs : Step defaults c c') : Exclusive c' := by
  obtain ⟨hholders, hlast⟩ := hc
  cases hs with
  | arrive body =>
    refine ⟨?_, hlast⟩
    rw [List.countP_append, hholders]
    rfl
  | @other w call route r x hroute hrun =>
    have ht : (runOn (c.tracker, w) (answer defaults call route)).2.1 = c.tracker := answer_tracker hroute
    rw [hrun] at ht
    rw [ht]
    exact ⟨hholders, hlast⟩
  | @move i h h' t' hi hmove =>
    obtain ⟨hlt, hget⟩ := List.getElem?_eq_some_iff.1 hi
    have hcount := List.countP_set (p := Handling.holds) (a := h') hlt
    rw [hget, hholders] at hcount
    obtain ⟨hsame, hnone, hactive, hkept⟩ | ⟨hfree, htakes, hnone, hopen, rfl⟩ | ⟨r, hheld, hfrees, hone, rfl⟩ :=
      moves_cases hmove
    · have hpos : h.holds = true → c.tracker.active.isSome = true := by
        intro hh
        have hmem : 0 < c.calls.countP Handling.holds :=
          List.countP_pos_iff.2 ⟨h, List.mem_of_getElem? hi, hh⟩
        rw [hholders] at hmem
        by_contra hno
        rw [if_neg hno] at hmem
        exact absurd hmem (lt_irrefl 0)
      refine ⟨?_, by rw [hnone, hkept]; exact hlast⟩
      rw [hactive, hcount, hsame]
      by_cases hh : h.holds = true
      · rw [if_pos hh, if_pos (hpos hh)]
      · rw [if_neg hh, Nat.sub_zero, Nat.add_zero]
    · refine ⟨?_, by rw [hnone]; exact hlast⟩
      rw [hcount, hfree, htakes, hopen]
      rfl
    · refine ⟨?_, ?_⟩
      · rw [hcount, hheld, hfrees]
        split
        · rfl
        · rfl
      · rw [hone, Tracker.release, List.singleton_append, List.findSome?_cons, hlast]
        cases r.toOption
        · rfl
        · rfl

lemma Reachable.exclusive {c : Site} (h : Reachable defaults c) : Exclusive c := by
  induction h with
  | opened => exact ⟨rfl, rfl⟩
  | step h hstep ih => exact ih.step hstep

/-- **At most one run is active on a server.** However the stages of any number of calls for a run come after one another,
and with whatever other calls between them, no more than one call holds the run. A call is refused exactly while another
one holds it; it is answered that a run is in progress, and the tracker stays as it is. When every call has its answer no
run is active, and the last report is that of the last released run that had come to one. -/
theorem one_run_at_a_time {c : Site} (h : Reachable defaults c) :
    c.calls.countP Handling.holds ≤ 1 ∧
      ((c.tracker.acquire none).1 = false ↔ ∃ h ∈ c.calls, h.holds = true) ∧
      (∀ s w, (c.tracker.acquire none).1 = false →
        runOn (c.tracker, w) ((Handling.ready s).next defaults) = (.ok (.answered busy), (c.tracker, w))) ∧
      ((∀ h ∈ c.calls, h.done = true) → c.tracker.active = none) ∧
      c.tracker.last = c.released.findSome? Except.toOption := by
  obtain ⟨hholders, hlast⟩ := h.exclusive
  have hone : c.calls.countP Handling.holds ≤ 1 := by
    rw [hholders]
    split
    · exact le_rfl
    · exact zero_le_one
  have hheld : c.tracker.active.isSome = true ↔ ∃ h ∈ c.calls, h.holds = true := by
    rw [← List.countP_pos_iff, hholders]
    split
    · rename_i hs
      exact iff_of_true hs zero_lt_one
    · rename_i hs
      exact iff_of_false hs (lt_irrefl 0)
  have hrefused : (c.tracker.acquire none).1 = false ↔ c.tracker.active.isSome = true := by
    rcases hactive : c.tracker.active with _ | o
    · simp [Tracker.acquire, hactive]
    · simp [Tracker.acquire, hactive]
  refine ⟨hone, hrefused.trans hheld, fun s w hbusy => runOn_next_taken (hrefused.1 hbusy), fun hdone => ?_, hlast⟩
  rw [← Option.not_isSome_iff_eq_none, hheld]
  rintro ⟨h, hmem, hh⟩
  have hd := hdone h hmem
  cases h with
  | answered r => exact absurd hh nofun
  | _ => exact absurd hd nofun

/-! ### Two calls -/

/-- The file tree of a server that has a project without configuration. -/
def bareProject : World where
  tree := Tree.empty.put ["w"] .directory

/-- A call for a run of that project. -/
def bareBody : Option Datum := some (Datum.ofFields [("project_path", .text "/w")])

/-- The settings of that project are built. -/
lemma built_bareBody : ∃ s x, runOn ({}, bareProject) ((Handling.asked bareBody).next {}) = (.ok (.ready s), x) ∧
    x.1 = {} := by
  have hasked : asking bareBody = .ok ⟨"/w", false, true, none, none, none, none⟩ := rfl
  have hloads : (runOn bareProject (Settings.load {} "/w" none
      (RunRequest.said ⟨"/w", false, true, none, none, none, none⟩))).1.toOption.isSome = true := by decide
  obtain ⟨s, hs⟩ := Option.isSome_iff_exists.1 hloads
  have hnext : runOn ({}, bareProject) ((Handling.asked bareBody).next {}) = _ := runOn_next_asked hasked
  rw [ok_of_toOption hs] at hnext
  exact ⟨s, _, hnext, rfl⟩

/-- A report of a run that had nothing to do. -/
def cleanReport : Report := { timestamp := .ofUniversal World.beginning }

/-- The server while one of two calls holds the run and the other one was refused. -/
def contested (s : Settings) : Site :=
  { tracker := { active := some none }, calls := [.going s, .answered busy] }

/-- The server after the first call has its report. -/
def settled : Site where
  tracker := { last := some cleanReport }
  calls := [.answered (conclusion (.ok cleanReport)), .answered busy]
  released := [.ok cleanReport]

lemma reachable_contested : ∃ s, Reachable {} (contested s) := by
  obtain ⟨s, x, hbuilt, hx⟩ := built_bareBody
  have hboth : Reachable {} { calls := [.asked bareBody, .asked bareBody] } :=
    (Reachable.opened.step (.arrive _ bareBody)).step (.arrive _ bareBody)
  have hready : Reachable {} { calls := [.ready s, .ready s] } := by
    have hfirst := hboth.step (.move (i := 0) rfl (.next hbuilt))
    rw [hx] at hfirst
    have hsecond := hfirst.step (.move (i := 1) rfl (.next hbuilt))
    rwa [hx] at hsecond
  have hgoing := hready.step (.move (i := 0) rfl (.next (w := bareProject) (runOn_next_free rfl)))
  exact ⟨s, hgoing.step (.move (i := 1) rfl (.next (w := bareProject) (runOn_next_taken rfl)))⟩

lemma reachable_settled : Reachable {} settled := by
  obtain ⟨s, hs⟩ := reachable_contested
  have hended := hs.step (.move (i := 0) rfl (.finish _ s (.ok cleanReport)))
  exact hended.step (.move (i := 0) rfl (.next (w := bareProject) (runOn_next_ended (.ok cleanReport))))

/-- Of two calls one holds the run and the other one is refused. When the first one has its report, no run is active and
that report is the last one. -/
theorem one_run_at_a_time_contested : ∃ s, Reachable {} (contested s) ∧
    (contested s).calls.countP Handling.holds ≤ 1 ∧
    (∀ w, runOn ((contested s).tracker, w) ((Handling.ready s).next {}) =
      (.ok (.answered busy), ((contested s).tracker, w))) ∧
    Reachable {} settled ∧ settled.tracker.active = none ∧ settled.tracker.last = some cleanReport := by
  obtain ⟨s, hs⟩ := reachable_contested
  obtain ⟨hone, -, hrefused, -, -⟩ := one_run_at_a_time hs
  obtain ⟨-, -, -, hfree, hlast⟩ := one_run_at_a_time reachable_settled
  refine ⟨s, hs, hone, fun w => hrefused s w rfl, reachable_settled, hfree ?_, hlast⟩
  intro h hh
  rcases List.mem_cons.1 hh with rfl | hh
  · rfl
  · rw [List.mem_singleton.1 hh]
    rfl

end Ratchet.Server
