import Ratchet.Proofs.Run.Turns
import Ratchet.Proofs.Run.Wakeful

/-!
The waits of a run.

A run waits between two attempts and nowhere else, so it waits once less than it makes attempts.
-/

namespace Ratchet

open Act

variable {σ : Type}

namespace Run

variable {s : Settings} {crew : Crew σ} {fr : Frame σ} {held : σ} {x y : State σ}

lemma awake_measure {invoke : Act Observation} (h : Leads World.Awake invoke) :
    Leads World.Awake (measure s invoke) :=
  .bind (.awake_note rfl) fun _ => .bind h fun _ => .bind .get fun _ => .ofResult _

lemma awake_analyze (h : crew.Wakeful) {u v : Outer σ} {o : Option (Act (List Diagnostic))}
    (h' : runOn u (analyze s crew) = (.ok o, v)) :
    u.2.Awake v.2 ∧ ∀ m, o = some m → Leads World.Awake m := by
  obtain ⟨_, w, hw, ⟨_, -, hr, -⟩ | ⟨invoke, m, w', rfl, hm, ⟨_, -, hr, -⟩ | ⟨ds, rfl, rfl, hr⟩⟩⟩ := analyze_cases h'
  · exact absurd hr nofun
  · exact absurd hr nofun
  · have hinvoke := awake_measure (s := s) (h.measures hw)
    have hstart := h.toolchain u.2
    have hmeasure := hinvoke w
    rw [hw] at hstart
    rw [hm] at hmeasure
    refine ⟨hmeasure.trans hstart, fun m' hm' => ?_⟩
    obtain rfl := Except.ok.inj hr
    split at hm'
    · exact absurd hm' nofun
    · obtain rfl := Option.some.inj hm'
      exact hinvoke

/-- Setting up enters no waits, and no attempt does either. -/
lemma awake_prepare (h : crew.Wakeful) {u v : Outer σ} {o : Option (Frame σ × σ)}
    (h' : runOn u (prepare s crew) = (.ok o, v)) :
    u.2.Awake v.2 ∧ ∀ fr held, o = some (fr, held) → fr.settings = s ∧ fr.Leads World.Awake := by
  obtain ⟨_, z, hz, ⟨_, -, hr, -⟩ | ⟨rfl, hr, rfl⟩ | ⟨measure, p, w, rfl, hc, hr, rfl⟩⟩ := prepare_cases h'
  · exact absurd hr nofun
  · obtain rfl := Except.ok.inj hr
    exact ⟨(awake_analyze h hz).1, fun _ _ ho => absurd ho nofun⟩
  · rcases p with f | ⟨fr, held⟩
    · exact absurd hr nofun
    · obtain rfl := Except.ok.inj hr
      obtain ⟨hz, hmeasure⟩ := awake_analyze h hz
      obtain ⟨hs, hm, hguard, w₁, w₂, hregistry, hprovider, hrest⟩ := complete_ok hc
      have hloaded := h.registry z.2
      have hopened := h.provider w₁
      rw [hregistry] at hloaded
      rw [hprovider] at hopened
      have hw₂ : u.2.Awake w₂ := hopened.trans (hloaded.trans hz)
      refine ⟨?_, fun fr' held' ho => ?_⟩
      · obtain ⟨-, rfl⟩ | ⟨bs, hbs, he⟩ := hrest
        · exact hw₂
        · have hensured := h.ensure bs hbs w₂
          rw [he] at hensured
          exact hensured.trans hw₂
      · obtain ⟨rfl, -⟩ := Prod.mk.inj (Option.some.inj ho)
        refine ⟨hs, hm ▸ hmeasure _ rfl, fun b => Registry.awake_apply (h.strategies hregistry), ?_, ?_, ?_, ?_, ?_⟩
        · rw [hguard]
          exact h.checkpoint
        · rw [hguard]
          exact h.commit
        · rw [hguard]
          exact h.revert
        · rw [hguard]
          exact h.create
        · rw [hguard]
          exact h.restore

/-! ### Waiting between attempts -/

/-- The waits of a run that has made some attempts. -/
def waitsFor (s : Settings) (attempts : Nat) : List Float :=
  List.replicate (if s.phaseDelay != 0 then attempts - 1 else 0) s.phaseDelay

/-- An attempt that is not the first waits first. -/
lemma waitsFor_succ (s : Settings) (n : Nat) :
    waitsFor s (n + 1) = waitsFor s n ++ if n != 0 && s.phaseDelay != 0 then [s.phaseDelay] else [] := by
  by_cases hd : (s.phaseDelay != 0) = true
  · rcases n with _ | n
    · simp [waitsFor]
    · simp [waitsFor, hd, List.replicate_succ']
  · simp [waitsFor, hd]

lemma waits_paused (x : State σ) (s : Settings) : (x.paused s).2.waits =
    x.2.waits ++ if x.1.1.attempts != 0 && s.phaseDelay != 0 then [s.phaseDelay] else [] := by
  unfold State.paused
  split
  · exact World.tells_note Event.waited? x.2 (.sleep s.phaseDelay)
  · exact (List.append_nil _).symm

/-- The waits since a world are those between the attempts that were made since. -/
structure Waited (s : Settings) (w : World) (x : State σ) : Prop where
  attempts : x.1.1.attempts = x.1.1.phases.length
  waits : x.2.waits = w.waits ++ waitsFor s x.1.1.attempts

/-- A round waits as often as it should, and its attempt does not. -/
lemma kept_waited (h : fr.Leads World.Awake) (w : World) : Kept fr (Waited fr.settings w) where
  round {x y a o} hx _ hr := by
    obtain ⟨p, hp, -⟩ := round_logged hr
    refine ⟨?_, ?_⟩
    · rw [hp.attempts, hp.phases, List.length_append, List.length_singleton, hx.attempts]
    · obtain ⟨u, z, hz, hc⟩ := round_cases hr
      have hzw : z.2.waits = (x.paused fr.settings).2.waits := (reaches_attempt h hz).1.world
      have hyz : y.2 = z.2 := by
        obtain ⟨_, -, -, rfl⟩ | ⟨_, -, rfl, -⟩ := hc
        · rfl
        · rfl
      rw [hyz, hzw, waits_paused, hx.waits, List.append_assoc, hp.attempts, waitsFor_succ]
  turn _ hx := ⟨hx.attempts, hx.waits⟩
  skip _ hx := ⟨hx.attempts, hx.waits⟩

/-- What a run did before its report: it waited between its attempts. -/
lemma waits_body (h : crew.Wakeful) {w : World} {v : Outer σ}
    (hr : runOn (started (opening w)) (body s crew) = (.ok (), v)) :
    v.2.waits = w.waits ++ waitsFor s v.1.1.phases.length := by
  obtain ⟨u, z, hz, ⟨_, -, hr, -⟩ | ⟨rfl, -, rfl⟩ | ⟨fr, held, rfl, hg⟩⟩ := body_cases hr
  · exact absurd hr nofun
  · have hlog := unlogged_prepare hz
    have hwaits : z.2.waits = w.waits := (awake_prepare h hz).1
    change z.2.waits = w.waits ++ waitsFor s z.1.1.phases.length
    rw [hwaits, hlog.phases]
    simp [waitsFor]
  · have hlog := unlogged_prepare hz
    obtain ⟨hzw, hfr⟩ := awake_prepare h hz
    obtain ⟨hs, hleads⟩ := hfr fr held rfl
    have hstart : Waited fr.settings w ((z.note (scheduled s)).inner held) := by
      refine ⟨hlog.attempts.trans (congrArg List.length hlog.phases).symm, ?_⟩
      change z.2.waits = w.waits ++ waitsFor fr.settings z.1.1.attempts
      rw [show z.2.waits = w.waits from hzw, hlog.attempts]
      simp [waitsFor]
    obtain ⟨t, hcourse, rfl⟩ := course_goThrough (kept_waited hleads w) hstart hg
    have hend : Waited fr.settings w t := by
      rcases hcourse.result with ⟨-, ht⟩ | ⟨_, _, _, _, hr⟩
      · exact ht
      · exact absurd hr nofun
    rw [hs] at hend
    change t.2.waits = w.waits ++ waitsFor s t.1.1.phases.length
    rw [hend.waits, hend.attempts]

lemma awake_writeFile (path text : String) : Leads World.Awake (Report.writeFile path text) := by
  refine .bind .get fun w =>
    .bind (.outcome (.bind (.awake_ensureDirectories _) fun _ => .awake_writeText _ _)) fun r => ?_
  rcases r with f | _
  · exact .ite _ (.pure _) (.throw _)
  · exact .pure _

lemma awake_publish (r : Report) (url : String) : Leads World.Awake (r.publish url) := by
  refine .ite _ (.bind (.awake_request _ _ _) fun answer => ?_) (.throw _)
  rcases answer with n | _
  · exact .pure _
  · exact .pure _

lemma awake_deliver (g : Option Grouping) (r : Report) : Leads World.Awake (deliver s g r) := by
  have hpost : Leads World.Awake (if s.webhook.isEmpty = true then pure () else do let _ ← r.publish s.webhook) :=
    .ite _ (.pure _) (.bind (awake_publish r _) fun _ => .pure _)
  refine .bind .get fun w => .ite _ (.bind (awake_writeFile _ _) fun _ => ?_) hpost
  rcases g with _ | g
  · exact hpost
  · exact .bind (awake_writeFile _ _) fun _ => hpost

/-- Settings with one category disabled. -/
def sparingSettings : Settings where
  projectPath := "/p"
  toolchainCommand := .words ["check"]
  snapshotProvider := "none"
  backupEnabled := false
  disabled := ["syntax-errors"]

/-- A world in which the check command finds diagnostics of two categories, and of one after the first attempt. -/
def easingWorld : World where
  processes := [
    { ending := .exit 1 "a.ts(1,1): error TS2304: x\na.ts(3,1): error TS1005: z" "" },
    { ending := .exit 1 "a.ts(3,1): error TS1005: z" "" }]

end Run

end Ratchet
