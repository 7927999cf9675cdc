import Ratchet.Proofs.Run.Setup

/-!
The course of a run.

`runMade` lists the attempts that a run comes to, each with the state in which it starts. The lists follow
the loops of a run one by one, and `course_remedyAll` says what the loops have to do with them: a
property that holds at the start and that a round keeps holds wherever an attempt starts and at the end,
and a loop faults exactly when one of its attempts does, in the state that this attempt leaves.
-/

namespace Ratchet.Run

open Act

variable {σ : Type}

/-- The attempts at one category, from the one with number `i` on. -/
def attemptsMade (fr : Frame σ) (c : Category) (left i : Nat) (records : List Diagnostic) (x : State σ) :
    List (Attempt × State σ) :=
  match left with
  | 0 => []
  | left + 1 => (⟨c, i, records⟩, x) :: match runOn x (round fr ⟨c, i, records⟩) with
    | (.ok (some next), y) => attemptsMade fr c left (i + 1) next y
    | _ => []

/-- The state in which a category's turn has come. -/
def State.turn (x : State σ) (c : Category) : State σ := x.advance fun p => { p with category := some c.name }

/-- The attempts at one category when its turn has come. -/
def categoryMade (fr : Frame σ) (c : Category) (x : State σ) : List (Attempt × State σ) :=
  if (recordsOf x.1.1 c).isEmpty then []
  else attemptsMade fr c fr.settings.maxIterations.toNat 1 (recordsOf x.1.1 c) (x.turn c)

/-- The attempts at scheduled categories. -/
def allMade (fr : Frame σ) : List Scheduled → State σ → List (Attempt × State σ)
  | [], _ => []
  | s :: ss, x =>
    if x.1.1.current == 0 then []
    else categoryMade fr s.category x ++ match runOn x (remedy fr s.category) with
      | (.ok (), y) => allMade fr ss y
      | _ => []

/-- What attempts have to do with a loop that makes them: a property holds at the start of each, and the
loop ends well in a state with the property or with the fault of one of them. -/
structure Course (fr : Frame σ) (I : State σ → Prop) (made : List (Attempt × State σ))
    (r : Except Fault Unit) (y : State σ) : Prop where
  start : ∀ m ∈ made, I m.2 ∧ m.1.diagnostics = recordsOf m.2.1.1 m.1.category
  ends : ∀ m ∈ made, (∃ o u, runOn m.2 (round fr m.1) = (.ok o, u)) ∨
    ∃ f, runOn m.2 (round fr m.1) = (.error f, y) ∧ r = .error f
  result : (r = .ok () ∧ I y) ∨ ∃ m ∈ made, ∃ f, runOn m.2 (round fr m.1) = (.error f, y) ∧ r = .error f

/-- What a loop keeps: a property that a round keeps and that does not depend on whose turn it is. -/
structure Kept (fr : Frame σ) (I : State σ → Prop) : Prop where
  round : ∀ {x y : State σ} {a : Attempt} {o : Option (List Diagnostic)}, I x →
    a.diagnostics = recordsOf x.1.1 a.category → runOn x (round fr a) = (.ok o, y) → I y
  turn : ∀ {x : State σ} (c : Category), I x → I (x.turn c)
  skip : ∀ {x : State σ} (c : Category), I x →
    I (x.advance fun p => { p with skipped := p.skipped ++ [c.name] })

variable {fr : Frame σ} {I : State σ → Prop} {x y z : State σ} {r : Except Fault Unit}

lemma Course.nil (hy : I y) : Course fr I [] (.ok ()) y where
  start _ hm := absurd hm List.not_mem_nil
  ends _ hm := absurd hm List.not_mem_nil
  result := .inl ⟨rfl, hy⟩

lemma Course.append {ms ns : List (Attempt × State σ)} (h : Course fr I ms (.ok ()) z)
    (k : Course fr I ns r y) : Course fr I (ms ++ ns) r y where
  start m hm := (List.mem_append.1 hm).elim (h.start m) (k.start m)
  ends m hm := by
    rcases List.mem_append.1 hm with hm | hm
    · rcases h.ends m hm with ho | ⟨f, -, hf⟩
      · exact .inl ho
      · exact absurd hf nofun
    · exact k.ends m hm
  result := by
    rcases k.result with ⟨rfl, hy⟩ | ⟨m, hm, f, hf⟩
    · exact .inl ⟨rfl, hy⟩
    · exact .inr ⟨m, List.mem_append.2 (.inr hm), f, hf⟩

/-- A loop that faults ends where it is: what would follow is not done. -/
lemma Course.stop {ms : List (Attempt × State σ)} {f : Fault} (h : Course fr I ms (.error f) y) :
    ∃ m ∈ ms, runOn m.2 (round fr m.1) = (.error f, y) := by
  rcases h.result with ⟨hr, -⟩ | ⟨m, hm, g, hg, hr⟩
  · exact absurd hr nofun
  · obtain rfl := Except.error.inj hr
    exact ⟨m, hm, hg⟩

lemma Course.single {a : Attempt} {o : Option (List Diagnostic)} (hx : I x)
    (ha : a.diagnostics = recordsOf x.1.1 a.category) (hy : I y)
    (h : runOn x (round fr a) = (.ok o, y)) : Course fr I [(a, x)] (.ok ()) y where
  start m hm := by
    obtain rfl := List.mem_singleton.1 hm
    exact ⟨hx, ha⟩
  ends m hm := by
    obtain rfl := List.mem_singleton.1 hm
    exact .inl ⟨o, y, h⟩
  result := .inl ⟨rfl, hy⟩

lemma Course.fault {a : Attempt} {f : Fault} (hx : I x)
    (ha : a.diagnostics = recordsOf x.1.1 a.category)
    (h : runOn x (round fr a) = (.error f, y)) : Course fr I [(a, x)] (.error f) y where
  start m hm := by
    obtain rfl := List.mem_singleton.1 hm
    exact ⟨hx, ha⟩
  ends m hm := by
    obtain rfl := List.mem_singleton.1 hm
    exact .inr ⟨f, h, rfl⟩
  result := .inr ⟨(a, x), List.mem_singleton.2 rfl, f, h, rfl⟩

/-- A round that goes on answers the diagnostics of its category as they are then. -/
lemma round_next {a : Attempt} {next : List Diagnostic}
    (h : runOn x (round fr a) = (.ok (some next), y)) : next = recordsOf y.1.1 a.category := by
  obtain ⟨u, z, -, ⟨f, -, hr, -⟩ | ⟨p, -, -, hr⟩⟩ := round_cases h
  · exact absurd hr nofun
  · split at hr
    · exact absurd (Except.ok.inj hr) nofun
    · exact Option.some.inj (Except.ok.inj hr)

/-- The course of the attempts at a category, by induction on how many may still be made. -/
lemma course_attempts (hI : Kept fr I) (c : Category) (left i : Nat) (x : State σ) (hx : I x)
    (h : runOn x (attempts fr c left i (recordsOf x.1.1 c)) = (r, y)) :
    Course fr I (attemptsMade fr c left i (recordsOf x.1.1 c) x) r y := by
  induction left generalizing i x with
  | zero =>
    obtain ⟨rfl, rfl⟩ := Prod.mk.inj h
    exact .nil hx
  | succ left ih =>
    rw [attempts, runOn_bind] at h
    rw [attemptsMade]
    rcases hr : runOn x (round fr ⟨c, i, recordsOf x.1.1 c⟩) with ⟨f | o, z⟩
    · obtain ⟨rfl, rfl⟩ := Prod.mk.inj (by simpa only [hr] using h)
      exact .fault hx rfl hr
    · have hz : I z := hI.round hx rfl hr
      rcases o with _ | next
      · obtain ⟨rfl, rfl⟩ := Prod.mk.inj (by simpa only [hr, runOn_pure] using h)
        exact .single hx rfl hz hr
      · simp only [hr] at h
        obtain rfl : next = recordsOf z.1.1 c := round_next hr
        exact (Course.single hx rfl hz hr).append (ih (i + 1) z hz h)

/-- The state in which a category is skipped. -/
def State.skip (x : State σ) (c : Category) : State σ :=
  x.advance fun p => { p with skipped := p.skipped ++ [c.name] }

/-- A category whose turn has come is skipped or attempted. -/
lemma remedy_cases {c : Category} (h : runOn x (remedy fr c) = (r, y)) :
    ((recordsOf x.1.1 c).isEmpty = true ∧ r = .ok () ∧ y = (x.turn c).skip c) ∨
      ((recordsOf x.1.1 c).isEmpty = false ∧ runOn (x.turn c)
        (attempts fr c fr.settings.maxIterations.toNat 1 (recordsOf x.1.1 c)) = (r, y)) := by
  simp only [remedy, runOn_bind, runOn_advance, runOn_progress] at h
  change runOn (x.turn c) (if (recordsOf x.1.1 c).isEmpty then _ else _) = _ at h
  by_cases he : (recordsOf x.1.1 c).isEmpty = true
  · rw [if_pos he] at h
    obtain ⟨rfl, rfl⟩ := Prod.mk.inj h
    exact .inl ⟨he, rfl, rfl⟩
  · rw [if_neg he] at h
    exact .inr ⟨Bool.eq_false_iff.2 he, h⟩

lemma course_remedy (hI : Kept fr I) (c : Category) (hx : I x) (h : runOn x (remedy fr c) = (r, y)) :
    Course fr I (categoryMade fr c x) r y := by
  rw [categoryMade]
  rcases remedy_cases h with ⟨he, rfl, rfl⟩ | ⟨he, ha⟩
  · rw [he, if_pos rfl]
    exact .nil (hI.skip c (hI.turn c hx))
  · rw [he, if_neg Bool.false_ne_true]
    exact course_attempts hI c _ 1 (x.turn c) (hI.turn c hx) ha

/-- The course of the scheduled categories, by induction on the schedule. -/
theorem course_remedyAll (hI : Kept fr I) (ss : List Scheduled) (hx : I x)
    (h : runOn x (remedyAll fr ss) = (r, y)) : Course fr I (allMade fr ss x) r y := by
  induction ss generalizing x with
  | nil =>
    obtain ⟨rfl, rfl⟩ := Prod.mk.inj h
    exact .nil hx
  | cons s ss ih =>
    simp only [remedyAll, runOn_bind, runOn_progress] at h
    rw [allMade]
    by_cases h0 : (x.1.1.current == 0) = true
    · rw [if_pos h0] at h ⊢
      obtain ⟨rfl, rfl⟩ := Prod.mk.inj h
      exact .nil hx
    · rw [if_neg h0, runOn_bind] at h
      rw [if_neg h0]
      rcases hr : runOn x (remedy fr s.category) with ⟨f | u, z⟩
      · obtain ⟨rfl, rfl⟩ := Prod.mk.inj (by simpa only [hr] using h)
        simpa only [List.append_nil] using course_remedy hI s.category hx hr
      · have hc := course_remedy hI s.category hx hr
        have hz : I z := by
          rcases hc.result with ⟨-, hz⟩ | ⟨_, _, _, _, hf⟩
          · exact hz
          · exact absurd hf nofun
        exact hc.append (ih hz (by simpa only [hr] using h))

/-! ### Whole runs -/

/-- The state in which a run is called. -/
def opening (w : World) : Outer σ := (({}, none), w)

/-- The attempts of a run that was set up. -/
def runMade (s : Settings) (fr : Frame σ) (held : σ) (x : Outer σ) : List (Attempt × State σ) :=
  allMade fr (scheduled s x.1.1).schedule ((x.note (scheduled s)).inner held)

lemma course_goThrough {s : Settings} {held : σ} {u v : Outer σ} (hI : Kept fr I)
    (hu : I ((u.note (scheduled s)).inner held)) (h : runOn u (goThrough s fr held) = (r, v)) :
    ∃ t, Course fr I (runMade s fr held u) r t ∧ v = t.ended r := by
  obtain ⟨t, ht, hv⟩ := goThrough_cases h
  exact ⟨t, course_remedyAll hI _ hu ht, hv⟩

/-- A run in a world comes to an attempt, with a frame and in a state. -/
def Attempted (s : Settings) (crew : Crew σ) (w : World) (fr : Frame σ) (a : Attempt) (x : State σ) : Prop :=
  ∃ held z, runOn (started (opening w)) (prepare s crew) = (.ok (some (fr, held)), z) ∧
    (a, x) ∈ runMade s fr held z

end Ratchet.Run
