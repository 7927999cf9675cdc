import Ratchet.Proofs.Run.Reach

/-!
The order of the phases.

The log of a run is made of blocks, one for each category whose turn came, in the order of the schedule.
The phases of a block are numbered from one on, and each that is followed by another one of its block was
kept, left diagnostics behind, and made progress unless it was the first. A category whose turn came has an
empty block exactly when it had no diagnostics left, and a turn that did not come was not needed.
-/

namespace Ratchet

/-- What a phase shows that another one of its category follows. -/
structure Phase.GoesOn (p : Phase) : Prop where
  committed : p.committed = true
  left : 0 < p.after
  clean : p.transformError.getD "" = ""
  gained : 1 < p.iteration → 0 < p.improvement

/-- The phases of attempts at one category: they are numbered from `i` on, there are at most `limit` of
them, and each but the last shows why the next one follows. -/
structure Block (name : String) (i limit : Nat) (ps : List Phase) : Prop where
  category : ∀ p ∈ ps, p.category = name
  numbered : ps.map Phase.iteration = (List.range' i ps.length).map Int.ofNat
  limited : ps.length ≤ limit
  goesOn : ∀ p ∈ ps.dropLast, p.GoesOn

namespace Block

variable {name : String} {i limit : Nat}

lemma nil : Block name i limit [] where
  category _ hp := absurd hp List.not_mem_nil
  numbered := rfl
  limited := Nat.zero_le _
  goesOn _ hp := absurd hp List.not_mem_nil

lemma single {p : Phase} (hc : p.category = name) (hi : p.iteration = i) : Block name i (limit + 1) [p] where
  category q hq := by rw [List.mem_singleton.1 hq, hc]
  numbered := by rw [List.map_singleton, hi]; rfl
  limited := Nat.succ_le_succ (Nat.zero_le _)
  goesOn _ hq := absurd hq List.not_mem_nil

lemma cons {p : Phase} {ps : List Phase} (hc : p.category = name) (hi : p.iteration = i) (hp : p.GoesOn)
    (h : Block name (i + 1) limit ps) : Block name i (limit + 1) (p :: ps) where
  category := List.forall_mem_cons.2 ⟨hc, h.category⟩
  numbered := by
    rw [List.map_cons, hi, h.numbered, List.length_cons, List.range'_succ]
    rfl
  limited := Nat.succ_le_succ h.limited
  goesOn q hq := by
    rcases ps with _ | ⟨q', ps⟩
    · exact absurd hq List.not_mem_nil
    · rcases List.mem_cons.1 hq with rfl | hq
      · exact hp
      · exact h.goesOn q hq

end Block

/-- In a log whose phases start with diagnostics, none but the last phase was kept and left nothing. -/
lemma Chained.left {n m : Int} {ps : List Phase} (h : Chained n ps m) (hb : ∀ p ∈ ps, p.before ≠ 0) :
    ∀ p ∈ ps.dropLast, p.committed = true → p.after ≠ 0 := by
  induction ps generalizing n with
  | nil => exact fun p hp => absurd hp List.not_mem_nil
  | cons q ps ih =>
    obtain ⟨-, h⟩ := h
    rcases ps with _ | ⟨q', ps⟩
    · exact fun p hp => absurd hp List.not_mem_nil
    · intro p hp hk
      rcases List.mem_cons.1 hp with rfl | hp
      · -- the next phase starts from what this one left
        have hnext : q'.before = p.after := by simpa only [if_pos hk] using h.1
        rw [← hnext]
        exact hb q' (by simp)
      · exact ih h (fun p hp => hb p (List.mem_cons_of_mem q hp)) p hp hk

namespace Run

open Act

variable {σ : Type} {fr : Frame σ} {a : Attempt} {x y : State σ}

/-- A category that has diagnostics left needs another measurement than an empty one. -/
lemma current_ne_zero {limit : Int} {c : Category} (hb : Booked limit x.1.1) (hc : recordsOf x.1.1 c ≠ []) :
    x.1.1.current ≠ 0 := by
  intro h0
  rw [← hb.counted, List.length_eq_zero_iff] at h0
  refine hc ?_
  rw [recordsOf, h0]
  exact Grouping.get_ofList [] c

/-- What a round leaves of the log and of what the loops keep. -/
structure Logged (fr : Frame σ) (a : Attempt) (x y : State σ) (p : Phase) : Prop where
  phases : y.1.1.phases = x.1.1.phases ++ [p]
  skipped : y.1.1.skipped = x.1.1.skipped
  schedule : y.1.1.schedule = x.1.1.schedule
  attempts : y.1.1.attempts = x.1.1.attempts + 1
  category : p.category = a.category.name
  iteration : p.iteration = a.iteration
  before : p.before = x.1.1.current
  kept : p.committed = true → p.after = y.1.1.current

lemma round_logged {o : Option (List Diagnostic)} (h : runOn x (round fr a) = (.ok o, y)) :
    ∃ p, Logged fr a x y p ∧ o = if endsCategory y.1.1 p || (recordsOf y.1.1 a.category).isEmpty then none
      else some (recordsOf y.1.1 a.category) := by
  obtain ⟨u, z, hz, ⟨f, -, hr, -⟩ | ⟨p, rfl, rfl, hr⟩⟩ := round_cases h
  · exact absurd hr nofun
  have hsteady := paused_steady x fr.settings
  have hpaused : (x.paused fr.settings).1.1.skipped = x.1.1.skipped ∧
      (x.paused fr.settings).1.1.schedule = x.1.1.schedule ∧
      (x.paused fr.settings).1.1.attempts = x.1.1.attempts + 1 := by
    unfold State.paused
    split <;> exact ⟨rfl, rfl, rfl⟩
  have : Std.Refl (α := World) fun _ _ => True := ⟨fun _ => trivial⟩
  have : IsTrans World fun _ _ => True := ⟨fun _ _ _ _ _ => trivial⟩
  obtain ⟨hreach, hp⟩ := reaches_attempt fr.leads_anywhere hz
  obtain ⟨hcategory, hiteration⟩ := hp p rfl
  have hentered := attempt_entered hz
  have hphases : z.1.1.phases = x.1.1.phases := by
    rcases hentered with ⟨hs, -, -⟩ | ⟨ds, v, hs, rfl, -, -, -, -⟩
    · rw [hs.phases, hsteady.phases]
    · exact hs.phases.trans hsteady.phases
  refine ⟨p, ⟨?_, hreach.skipped.trans hpaused.1, hreach.schedule.trans hpaused.2.1,
    hreach.attempts.trans hpaused.2.2, hcategory, hiteration, ?_, ?_⟩, Except.ok.inj hr⟩
  · change z.1.1.phases ++ [p] = _
    rw [hphases]
  · rw [← hsteady.current]
    rcases hentered with ⟨-, hbefore, -⟩ | ⟨ds, v, -, -, hbefore, -, -, -⟩
    · exact hbefore
    · exact hbefore
  · intro hk
    rcases hentered with ⟨-, -, hd⟩ | ⟨ds, v, -, rfl, -, ha, -, -⟩
    · exact absurd hk (by simp [hd])
    · exact ha

/-- A phase after which the category is not left shows why. -/
lemma goesOn_of_not_ends {p : Phase} {q : Progress} (hk : p.committed = true → p.after = q.current)
    (h : endsCategory q p = false) : p.GoesOn := by
  simp only [endsCategory, Bool.or_eq_false_iff, Bool.and_eq_false_iff, beq_eq_false_iff_ne,
    bne_eq_false_iff_eq, decide_eq_false_iff_not, not_le] at h
  obtain ⟨⟨⟨⟨⟨hcurrent, hfailed⟩, hreverted⟩, hdry⟩, hclean⟩, hgain⟩ := h
  have hcommitted : p.committed = true := by simp [Phase.committed, hfailed, hreverted, hdry]
  exact ⟨hcommitted, by rw [hk hcommitted]; omega, hclean, fun h1 => hgain.resolve_left (not_not_intro h1)⟩

/-! ### Blocks and turns -/

/-- What loops leave behind that made the attempts of these phases and skipped these categories. -/
structure Passed (x y : State σ) (ps : List Phase) (skipped : List String) : Prop where
  phases : y.1.1.phases = x.1.1.phases ++ ps
  skipped : y.1.1.skipped = x.1.1.skipped ++ skipped
  schedule : y.1.1.schedule = x.1.1.schedule
  attempts : y.1.1.attempts = x.1.1.attempts + ps.length
  before : ∀ p ∈ ps, p.before ≠ 0

namespace Passed

lemma refl (x : State σ) : Passed x x [] [] where
  phases := (List.append_nil _).symm
  skipped := (List.append_nil _).symm
  schedule := rfl
  attempts := rfl
  before _ hp := absurd hp List.not_mem_nil

lemma trans {z : State σ} {ps qs : List Phase} {cs ds : List String} (h : Passed x y ps cs)
    (k : Passed y z qs ds) : Passed x z (ps ++ qs) (cs ++ ds) where
  phases := by rw [k.phases, h.phases, List.append_assoc]
  skipped := by rw [k.skipped, h.skipped, List.append_assoc]
  schedule := k.schedule.trans h.schedule
  attempts := by rw [k.attempts, h.attempts, List.length_append, Nat.add_assoc]
  before := List.forall_mem_append.2 ⟨h.before, k.before⟩

lemma turn (x : State σ) (c : Category) : Passed x (x.turn c) [] [] :=
  ⟨(List.append_nil _).symm, (List.append_nil _).symm, rfl, rfl, fun _ hp => absurd hp List.not_mem_nil⟩

/-- A round that starts with diagnostics makes one phase. -/
lemma of_logged {p : Phase} (h : Logged fr a x y p) (h0 : x.1.1.current ≠ 0) : Passed x y [p] [] where
  phases := h.phases
  skipped := h.skipped.trans (List.append_nil _).symm
  schedule := h.schedule
  attempts := h.attempts
  before q hq := by
    rw [List.mem_singleton.1 hq, h.before]
    exact_mod_cast h0

end Passed

/-- The attempts at a category with diagnostics make one block, by induction on how many may be made. -/
lemma attempts_block (c : Category) {left i : Nat} (hb : Booked fr.guard.maxIncrease x.1.1)
    (hc : recordsOf x.1.1 c ≠ [])
    (h : runOn x (attempts fr c left i (recordsOf x.1.1 c)) = (.ok (), y)) :
    ∃ ps, Passed x y ps [] ∧ Block c.name i left ps ∧ (0 < left → ps ≠ []) := by
  induction left generalizing i x with
  | zero =>
    obtain ⟨-, rfl⟩ := Prod.mk.inj h
    exact ⟨[], .refl _, .nil, fun h0 => absurd h0 (lt_irrefl 0)⟩
  | succ left ih =>
    rw [attempts] at h
    obtain ⟨o, z, hz, h⟩ := of_bind_ok h
    obtain ⟨p, hp, ho⟩ := round_logged hz
    have hpassed := Passed.of_logged hp (current_ne_zero hb hc)
    by_cases hend : (endsCategory z.1.1 p || (recordsOf z.1.1 c).isEmpty) = true
    · rw [if_pos hend] at ho
      subst ho
      obtain ⟨-, rfl⟩ := Prod.mk.inj h
      exact ⟨[p], hpassed, .single hp.category hp.iteration, fun _ => List.cons_ne_nil _ _⟩
    · rw [if_neg hend] at ho
      subst ho
      obtain ⟨hgoes, hleft⟩ := Bool.or_eq_false_iff.1 (Bool.eq_false_iff.2 hend)
      obtain ⟨ps, hps, hblock, -⟩ := ih (hb.round hz) (by simpa using hleft) h
      exact ⟨p :: ps, hpassed.trans hps,
        hblock.cons hp.category hp.iteration (goesOn_of_not_ends hp.kept hgoes), fun _ => List.cons_ne_nil _ _⟩

/-- Whether a category has no diagnostics left when its turn comes. -/
def idle (t : Category × State σ) : Bool := (recordsOf t.2.1.1 t.1).isEmpty

/-- What comes of a turn: a block of phases, which is empty exactly when no diagnostics are left. -/
structure Turn (limit : Nat) (t : Category × State σ) (ps : List Phase) : Prop where
  block : Block t.1.name 1 limit ps
  idle_iff : idle t = true ↔ ps = []

/-- The names of the categories that are skipped at their turn. -/
def skips (ts : List (Category × State σ)) : List String := (ts.filter idle).map (·.1.name)

lemma remedy_turn {c : Category} (hlimit : 0 < fr.settings.maxIterations.toNat)
    (hb : Booked fr.guard.maxIncrease x.1.1) (h : runOn x (remedy fr c) = (.ok (), y)) :
    ∃ ps, Passed x y ps (skips [(c, x)]) ∧ Turn fr.settings.maxIterations.toNat (c, x) ps := by
  rcases remedy_cases h with ⟨hempty, -, rfl⟩ | ⟨hempty, ha⟩
  · have hidle : idle (c, x) = true := hempty
    refine ⟨[], ?_, .nil, iff_of_true hidle rfl⟩
    rw [skips, List.filter_cons_of_pos hidle]
    exact ⟨(List.append_nil _).symm, rfl, rfl, rfl, fun _ hp => absurd hp List.not_mem_nil⟩
  · have hbusy : ¬idle (c, x) = true := Bool.eq_false_iff.1 hempty
    have hbt : Booked fr.guard.maxIncrease (x.turn c).1.1 := hb.steady ⟨rfl, rfl, rfl, rfl⟩
    have hc : recordsOf (x.turn c).1.1 c ≠ [] := List.isEmpty_eq_false_iff.1 hempty
    obtain ⟨ps, hps, hblock, hne⟩ := attempts_block c hbt hc ha
    refine ⟨ps, ?_, hblock, iff_of_false hbusy (hne hlimit)⟩
    rw [skips, List.filter_cons_of_neg hbusy]
    exact (Passed.turn x c).trans hps

/-- The turns that scheduled categories come to, each with the state in which it comes. -/
def turnsMade (fr : Frame σ) : List Scheduled → State σ → List (Category × State σ)
  | [], _ => []
  | s :: ss, x =>
    if x.1.1.current == 0 then []
    else (s.category, x) :: match runOn x (remedy fr s.category) with
      | (.ok (), y) => turnsMade fr ss y
      | _ => []

/-- What comes of turns: a block for each, in order. -/
abbrev Turns (limit : Nat) (ts : List (Category × State σ)) (bs : List (List Phase)) : Prop :=
  List.Forall₂ (Turn limit) ts bs

/-- The phases of a schedule are the blocks of the turns that come, by induction on the schedule. A turn
does not come only when nothing is left. -/
theorem remedyAll_turns {ss : List Scheduled} (hlimit : 0 < fr.settings.maxIterations.toNat)
    (hb : Booked fr.guard.maxIncrease x.1.1) (h : runOn x (remedyAll fr ss) = (.ok (), y)) :
    ∃ bs, Turns fr.settings.maxIterations.toNat (turnsMade fr ss x) bs ∧
      Passed x y bs.flatten (skips (turnsMade fr ss x)) ∧
      ∃ rest, ss.map (·.category) = (turnsMade fr ss x).map (·.1) ++ rest ∧
        (rest ≠ [] → y.1.1.current = 0) := by
  induction ss generalizing x with
  | nil =>
    obtain ⟨-, rfl⟩ := Prod.mk.inj h
    exact ⟨[], .nil, .refl _, [], rfl, fun h => absurd rfl h⟩
  | cons s ss ih =>
    simp only [remedyAll, runOn_bind, runOn_progress] at h
    rw [turnsMade]
    by_cases h0 : (x.1.1.current == 0) = true
    · rw [if_pos h0] at h ⊢
      obtain ⟨-, rfl⟩ := Prod.mk.inj h
      exact ⟨[], .nil, .refl _, _, rfl, fun _ => by simpa using h0⟩
    · rw [if_neg h0] at h ⊢
      obtain ⟨_, z, hz, h⟩ := of_bind_ok h
      obtain ⟨ps, hps, hturn⟩ := remedy_turn hlimit hb hz
      have hbz : Booked fr.guard.maxIncrease z.1.1 := by
        rcases (course_remedy booked_kept s.category hb hz).result with ⟨-, hbz⟩ | ⟨_, _, _, _, hr⟩
        · exact hbz
        · cases hr
      obtain ⟨bs, hbs, hpassed, rest, hrest, hend⟩ := ih hbz h
      simp only [hz]
      refine ⟨ps :: bs, .cons hturn hbs, ?_, rest, ?_, hend⟩
      · have hskips : skips ((s.category, x) :: turnsMade fr ss z) =
            skips [(s.category, x)] ++ skips (turnsMade fr ss z) := by
          rw [skips, skips, skips, ← List.map_append, ← List.filter_append, List.singleton_append]
        rw [hskips]
        exact hps.trans hpassed
      · rw [List.map_cons, hrest]
        rfl

/-- The turns of a run. -/
def turns (s : Settings) (crew : Crew σ) (w : World) : List (Category × State σ) :=
  match runOn (started (opening w)) (prepare s crew) with
  | (.ok (some (fr, held)), z) => turnsMade fr (scheduled s z.1.1).schedule ((z.note (scheduled s)).inner held)
  | _ => []

/-! ### Where a category ends up -/

variable {limit : Nat} {ts : List (Category × State σ)} {bs : List (List Phase)} {name : String}

/-- The categories that have phases are those that were not idle at their turn. -/
lemma exists_phase_iff (h : Turns limit ts bs) :
    (∃ p ∈ bs.flatten, p.category = name) ↔ ∃ t ∈ ts, t.1.name = name ∧ ¬idle t = true := by
  induction h with
  | nil => exact iff_of_false (fun ⟨_, hp, _⟩ => List.not_mem_nil hp) (fun ⟨_, ht, _⟩ => List.not_mem_nil ht)
  | @cons t ps ts bs ht _ ih =>
    have hhead : (∃ p ∈ ps, p.category = name) ↔ t.1.name = name ∧ ¬idle t = true := by
      rw [ht.idle_iff]
      constructor
      · rintro ⟨p, hp, rfl⟩
        exact ⟨(ht.block.category p hp).symm, List.ne_nil_of_mem hp⟩
      · rintro ⟨rfl, hne⟩
        obtain ⟨p, hp⟩ := List.exists_mem_of_ne_nil ps hne
        exact ⟨p, hp, ht.block.category p hp⟩
    simp only [List.flatten_cons, List.mem_append, List.exists_mem_cons_iff, or_and_right, exists_or, hhead, ih]

lemma mem_skips : name ∈ skips ts ↔ ∃ t ∈ ts, t.1.name = name ∧ idle t = true := by
  simp only [skips, List.mem_map, List.mem_filter]
  exact exists_congr fun t => by tauto

end Run

/-- Where a scheduled category can end up. -/
inductive Situation
  | tried
  | skipped
  | unreached
  deriving DecidableEq

/-- Whether a category is in a situation at the end of a run whose turns are given: it has a block of phases, it was
skipped, or its turn did not come and nothing is left. -/
def Situation.Fits {σ : Type} (r : Report) (ts : List (Category × Run.State σ)) (name : String) : Situation → Prop
  | tried => ∃ p ∈ r.phases, p.category = name
  | skipped => name ∈ r.skipped
  | unreached => name ∉ ts.map (·.1.name) ∧ r.final = 0

/-- A report whose log follows the rules of scheduling, for a run whose turns are given. -/
structure Report.Orderly {σ : Type} (s : Settings) (ts : List (Category × Run.State σ)) (r : Report) : Prop where
  /-- The turns come in the order of the schedule. -/
  order : ts.map (·.1.name) <+: r.schedule.map (·.name)
  /-- The log is made of one block for each turn. -/
  blocks : ∃ bs, Run.Turns s.maxIterations.toNat ts bs ∧ r.phases = bs.flatten
  skipped : r.skipped = Run.skips ts
  situation : ∀ row ∈ r.schedule, ∃! u, Situation.Fits r ts row.name u
  /-- No phase follows one that was kept and left nothing. -/
  left : ∀ p ∈ r.phases.dropLast, p.committed = true → p.after ≠ 0
  enabled : ∀ p ∈ r.phases, p.category ∉ s.disabled

section

variable {σ : Type} {r : Report} {ts : List (Category × Run.State σ)} {bs : List (List Phase)} {limit : Nat}
  {name : String}

/-- A category is in one situation when its turn comes once at most, and comes unless nothing is left. -/
lemma Situation.unique (hbs : Run.Turns limit ts bs) (hphases : r.phases = bs.flatten)
    (hskipped : r.skipped = Run.skips ts) (hnodup : (ts.map (·.1.name)).Nodup)
    (hend : name ∉ ts.map (·.1.name) → r.final = 0) : ∃! u, Situation.Fits r ts name u := by
  have htried : Situation.Fits r ts name .tried ↔ ∃ t ∈ ts, t.1.name = name ∧ ¬Run.idle t = true := by
    rw [Situation.Fits, hphases]
    exact Run.exists_phase_iff hbs
  have hskip : Situation.Fits r ts name .skipped ↔ ∃ t ∈ ts, t.1.name = name ∧ Run.idle t = true := by
    rw [Situation.Fits, hskipped]
    exact Run.mem_skips
  by_cases hmem : name ∈ ts.map (·.1.name)
  · obtain ⟨t, ht, htname⟩ := List.mem_map.1 hmem
    have hone : ∀ t' ∈ ts, t'.1.name = name → t' = t := fun t' ht' hn =>
      List.inj_on_of_nodup_map hnodup ht' ht (hn.trans htname.symm)
    by_cases hidle : Run.idle t = true
    · refine ⟨.skipped, hskip.2 ⟨t, ht, htname, hidle⟩, fun u hu => ?_⟩
      cases u with
      | tried =>
        obtain ⟨t', ht', hn, hbusy⟩ := htried.1 hu
        exact absurd (hone t' ht' hn ▸ hidle) hbusy
      | skipped => rfl
      | unreached => exact absurd hmem hu.1
    · refine ⟨.tried, htried.2 ⟨t, ht, htname, hidle⟩, fun u hu => ?_⟩
      cases u with
      | tried => rfl
      | skipped =>
        obtain ⟨t', ht', hn, hidle'⟩ := hskip.1 hu
        exact absurd (hone t' ht' hn ▸ hidle') hidle
      | unreached => exact absurd hmem hu.1
  · have hnone : ∀ t ∈ ts, t.1.name ≠ name := fun t ht hn => hmem (List.mem_map.2 ⟨t, ht, hn⟩)
    refine ⟨.unreached, ⟨hmem, hend hmem⟩, fun u hu => ?_⟩
    cases u with
    | tried =>
      obtain ⟨t, ht, hn, -⟩ := htried.1 hu
      exact absurd hn (hnone t ht)
    | skipped =>
      obtain ⟨t, ht, hn, -⟩ := hskip.1 hu
      exact absurd hn (hnone t ht)
    | unreached => rfl

end

namespace Run

open Act

variable {σ : Type} {s : Settings} {crew : Crew σ} {fr : Frame σ} {held : σ} {w : World} {x y : Outer σ}

/-- What a run that is set up has done to the log: nothing. -/
structure Unlogged (p : Progress) : Prop where
  phases : p.phases = []
  skipped : p.skipped = []
  schedule : p.schedule = []
  attempts : p.attempts = 0

lemma unlogged_prepare {o : Option (Frame σ × σ)} (h : runOn (started x) (prepare s crew) = (.ok o, y)) :
    Unlogged y.1.1 := by
  obtain ⟨u, z, hz, hc⟩ := prepare_cases h
  have hlog : Unlogged z.1.1 := by
    obtain ⟨_, w, -, ⟨f, -, -, rfl⟩ | ⟨i, m, v, -, -, ⟨f, -, -, rfl⟩ | ⟨ds, -, rfl, -⟩⟩⟩ := analyze_cases hz
    · exact ⟨rfl, rfl, rfl, rfl⟩
    · exact ⟨rfl, rfl, rfl, rfl⟩
    · exact ⟨rfl, rfl, rfl, rfl⟩
  obtain ⟨f, -, -, rfl⟩ | ⟨-, -, rfl⟩ | ⟨measure, v, w, -, -, -, rfl⟩ := hc
  · exact hlog
  · exact hlog
  · exact hlog

/-- The names of the scheduled categories. -/
def scheduledNames (s : Settings) (p : Progress) : List String := (scheduled s p).schedule.map (·.category.name)

lemma nodup_scheduledNames (p : Progress) : (scheduledNames s p).Nodup := by
  have h := (Grouping.nodup_schedule p.diagnostics s.disabled).map fun _ _ => Category.name_injective
  rwa [List.map_map] at h

lemma enabled_of_mem_scheduledNames {p : Progress} {name : String} (h : name ∈ scheduledNames s p) :
    name ∉ s.disabled := by
  obtain ⟨c, hc, rfl⟩ := List.mem_map.1 h
  exact Grouping.enabled_of_mem_schedule hc

/-- The report of phases that were gone through is orderly. -/
lemma orderly_goThrough (hlimit : 1 ≤ s.maxIterations) (hs : fr.settings = s)
    (hg : fr.guard.maxIncrease = s.maxIncrease) (hb : Booked s.maxIncrease x.1.1) (hlog : Unlogged x.1.1)
    (h : runOn x (goThrough s fr held) = (.ok (), y)) :
    (report s y.1.1 w).Orderly s
      (turnsMade fr (scheduled s x.1.1).schedule ((x.note (scheduled s)).inner held)) := by
  have hchain := ((booked_goThrough hg hb h).report w).chained
  obtain ⟨t, ht, rfl⟩ := goThrough_cases h
  replace ht : runOn ((x.note (scheduled s)).inner held) (remedyAll fr (scheduled s x.1.1).schedule) = (.ok (), t) :=
    ht
  have hlimit' : 0 < fr.settings.maxIterations.toNat := by rw [hs]; omega
  have hbx : Booked fr.guard.maxIncrease ((x.note (scheduled s)).inner held).1.1 :=
    hg ▸ ⟨hb.chained, hb.fair, hb.counted⟩
  obtain ⟨bs, hbs, hpassed, rest, hrest, hend⟩ := remedyAll_turns hlimit' hbx ht
  rw [hs] at hbs
  generalize turnsMade fr (scheduled s x.1.1).schedule ((x.note (scheduled s)).inner held) = ts
    at hbs hpassed hrest ⊢
  have hphases : t.1.1.phases = bs.flatten :=
    hpassed.phases.trans (congrArg (· ++ bs.flatten) hlog.phases)
  have hskipped : t.1.1.skipped = skips ts := hpassed.skipped.trans (congrArg (· ++ skips ts) hlog.skipped)
  have hnames : (report s (State.ended t (.ok ())).1.1 w).schedule.map (·.name) = scheduledNames s x.1.1 := by
    change List.map _ (List.map _ t.1.1.schedule) = _
    rw [hpassed.schedule, List.map_map]
    rfl
  have hsplit : scheduledNames s x.1.1 = ts.map (·.1.name) ++ rest.map Category.name := by
    have hmap := congrArg (List.map Category.name) hrest
    rwa [List.map_append, List.map_map, List.map_map] at hmap
  refine ⟨⟨rest.map Category.name, by rw [hnames, hsplit]⟩, ⟨bs, hbs, hphases⟩, hskipped, fun row hrow => ?_,
    hchain.left fun p hp => hpassed.before p (hphases ▸ hp), fun p hp => ?_⟩
  · refine Situation.unique hbs hphases hskipped ?_ fun hout => ?_
    · exact List.Nodup.of_append_left (hsplit ▸ nodup_scheduledNames x.1.1)
    · -- a category whose turn did not come is one of the rest
      have hrow' : row.name ∈ ts.map (·.1.name) ++ rest.map Category.name := by
        rw [← hsplit, ← hnames]
        exact List.mem_map_of_mem hrow
      obtain ⟨c, hc, -⟩ := List.mem_map.1 ((List.mem_append.1 hrow').resolve_left hout)
      exact congrArg Int.ofNat (hend (List.ne_nil_of_mem hc))
  · obtain ⟨t', ht', hn, -⟩ := (exists_phase_iff hbs).1 ⟨p, hphases ▸ hp, rfl⟩
    refine enabled_of_mem_scheduledNames (p := x.1.1) ?_
    rw [hsplit, ← hn]
    exact List.mem_append_left _ (List.mem_map_of_mem ht')

/-- The report of a run that did its work is orderly. -/
lemma orderly_body (hlimit : 1 ≤ s.maxIterations) (h : runOn (started (opening w)) (body s crew) = (.ok (), y))
    (v : World) : (report s y.1.1 v).Orderly s (turns s crew w) := by
  obtain ⟨u, z, hz, ⟨_, -, hr, -⟩ | ⟨rfl, -, rfl⟩ | ⟨fr, held, rfl, hg⟩⟩ := body_cases h
  · exact absurd hr nofun
  · have hlog := unlogged_prepare hz
    have hturns : turns s crew w = [] := by rw [turns, hz]
    rw [hturns]
    have hphases : (report s (z.note (·.enter .done)).1.1 v).phases = [] := hlog.phases
    have hschedule : (report s (z.note (·.enter .done)).1.1 v).schedule = [] := by
      change List.map _ z.1.1.schedule = _
      rw [hlog.schedule, List.map_nil]
    exact ⟨List.nil_prefix, ⟨[], .nil, hphases⟩, hlog.skipped, by simp [hschedule], by simp [hphases],
      by simp [hphases]⟩
  · obtain ⟨measure, _, _, -, hc, -⟩ := prepare_ok hz
    obtain ⟨hs, -, hguard, -⟩ := complete_ok hc
    have hturns : turns s crew w =
        turnsMade fr (scheduled s z.1.1).schedule ((z.note (scheduled s)).inner held) := by
      rw [turns, hz]
    rw [hturns]
    exact orderly_goThrough hlimit hs (by rw [hguard]) (booked_prepare _ hz) (unlogged_prepare hz) hg

end Run

end Ratchet
