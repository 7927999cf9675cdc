import Ratchet.ImportLine
import Ratchet.Proofs.Diagnostic.Line

/-!
What is read of a line.

A statement ends with `from`, a quoted source and an optional semicolon, and its clause is what stands before the
end. `Ends` says how an end is written. A line has one place at most that can be the end, up to blanks before it: two
quotes follow it and none stands between them, and nothing but blanks stands between it and `from`. So a line that is
put together from the parts of a statement is read as these parts, whatever the text of the clause is.
-/

namespace Ratchet

namespace Text

lemma dropStart?_eq_some {p s r : List Char} : dropStart? p s = some r ↔ s = p ++ r := by
  unfold dropStart?
  constructor
  · intro h
    split at h
    · rename_i hp
      obtain ⟨t, rfl⟩ := List.isPrefixOf_iff_prefix.1 hp
      rw [List.drop_left] at h
      rw [Option.some.inj h]
    · exact absurd h nofun
  · rintro rfl
    rw [if_pos (List.isPrefixOf_iff_prefix.2 (List.prefix_append p r)), List.drop_left]

/-- A run of characters ends where the first other one stands. -/
lemma span_run {p : Char → Bool} {g s : List Char} (hg : ∀ c ∈ g, p c = true) (hs : ∀ c ∈ s.head?, p c = false) :
    (g ++ s).takeWhile p = g ∧ (g ++ s).dropWhile p = s := by
  rw [List.takeWhile_append_of_pos hg, List.dropWhile_append_of_pos hg]
  cases s with
  | nil => simp
  | cons c s => simp [hs c rfl]

end Text

namespace ImportLine

open Text

/-! ### The end of a statement -/

/-- A source with its quotes: something without quotes between two of them. -/
def Quoted (source : List Char) : Prop :=
  ∃ q body q', isQuote q = true ∧ isQuote q' = true ∧ body ≠ [] ∧ (∀ c ∈ body, isQuote c = false) ∧
    source = q :: (body ++ [q'])

/-- What may follow a source: a semicolon, if there is one, and blanks. -/
def Finish (semicolon s : List Char) : Prop :=
  ∃ b b', (∀ c ∈ b, isBlank c = true) ∧ (∀ c ∈ b', isBlank c = true) ∧ (semicolon = [] ∨ semicolon = [';']) ∧
    s = b ++ (semicolon ++ b')

/-- How the end of a statement is written. -/
inductive Ends (t : Tail) : List Char → Prop
  | mk {g g' e : List Char} (before : Many isBlank g) (after : Many isBlank g') (source : Quoted t.source)
      (finish : Finish t.semicolon e) : Ends t (g ++ ("from".toList ++ (g' ++ (t.source ++ e))))

lemma source?_eq_some {s source r : List Char} : source? s = some (source, r) ↔ Quoted source ∧ s = source ++ r := by
  constructor
  · intro h
    unfold source? at h
    split at h
    · rename_i q s
      split at h
      · rename_i hq
        split at h
        · rename_i c body e rest hbody hrest
          obtain ⟨rfl, rfl⟩ := Prod.mk.inj (Option.some.inj h)
          have hall : ∀ x ∈ c :: body, isQuote x = false := by
            intro x hx
            rw [← hbody] at hx
            simpa using (List.all_eq_true.1 List.all_takeWhile) x hx
          have he : isQuote e = true := by
            have hd := List.head?_dropWhile_not (fun x => !isQuote x) s
            simpa [hrest] using hd
          refine ⟨⟨q, c :: body, e, hq, he, List.cons_ne_nil c body, hall, rfl⟩, ?_⟩
          rw [← List.takeWhile_append_dropWhile (p := fun x => !isQuote x) (l := s), hbody, hrest]
          simp
        · exact absurd h nofun
      · exact absurd h nofun
    · exact absurd h nofun
  · rintro ⟨⟨q, body, q', hq, hq', hne, hbody, rfl⟩, rfl⟩
    obtain ⟨hfirst, hrest⟩ := span_run (p := fun x => !isQuote x) (g := body) (s := q' :: r)
      (fun c hc => by simp [hbody c hc]) (by simp [hq'])
    obtain ⟨c, body, rfl⟩ := List.exists_cons_of_ne_nil hne
    have hs : q :: (c :: body ++ [q']) ++ r = q :: (c :: body ++ q' :: r) := by simp
    rw [hs, source?, if_pos hq, hfirst, hrest]
    simp

lemma semicolon?_eq_some {s m : List Char} : semicolon? s = some m ↔ Finish m s := by
  constructor
  · intro h
    unfold semicolon? at h
    have hall : ∀ c ∈ s.takeWhile isBlank, isBlank c = true := List.all_eq_true.1 List.all_takeWhile
    have hs := List.takeWhile_append_dropWhile (p := isBlank) (l := s)
    split at h
    · rename_i r hr
      split at h
      · rename_i hblank
        obtain rfl := Option.some.inj h
        exact ⟨_, r, hall, List.all_eq_true.1 hblank, .inr rfl, by rw [hr] at hs; exact hs.symm⟩
      · exact absurd h nofun
    · rename_i hr
      obtain rfl := Option.some.inj h
      exact ⟨_, [], hall, fun _ hc => absurd hc List.not_mem_nil, .inl rfl, by rw [hr] at hs; exact hs.symm⟩
    · exact absurd h nofun
  · rintro ⟨b, b', hb, hb', rfl | rfl, rfl⟩
    · have hdrop : (b ++ ([] ++ b')).dropWhile isBlank = [] := by
        rw [List.dropWhile_append_of_pos hb]
        exact List.dropWhile_eq_nil_iff.2 hb'
      rw [semicolon?, hdrop]
    · have hdrop : (b ++ ([';'] ++ b')).dropWhile isBlank = ';' :: b' :=
        (span_run hb (by rintro c ⟨⟩; rfl)).2
      rw [semicolon?, hdrop]
      exact if_pos (List.all_eq_true.2 hb')

/-- The end of a statement is read where it is written, and nowhere else. -/
theorem tail?_eq_some {s : List Char} {t : Tail} : tail? s = some t ↔ Ends t s := by
  constructor
  · intro h
    unfold tail? at h
    split at h
    · exact absurd h nofun
    · rename_i c s
      split at h
      · rename_i hc
        obtain ⟨r, hr, h⟩ := Option.bind_eq_some_iff.1 h
        split at h
        · rename_i hhead
          obtain ⟨⟨source, rest⟩, hsource, h⟩ := Option.bind_eq_some_iff.1 h
          obtain ⟨semicolon, hsemicolon, h⟩ := Option.bind_eq_some_iff.1 h
          obtain rfl := Option.some.inj h
          obtain ⟨hquoted, hs⟩ := source?_eq_some.1 hsource
          have hbefore : Many isBlank (c :: s.takeWhile isBlank) :=
            ⟨List.cons_ne_nil _ _, List.forall_mem_cons.2 ⟨hc, List.all_eq_true.1 List.all_takeWhile⟩⟩
          have hafter : Many isBlank (r.takeWhile isBlank) := by
            refine ⟨?_, List.all_eq_true.1 List.all_takeWhile⟩
            cases r with
            | nil => simp at hhead
            | cons x r => simp_all
          have hline : c :: s = (c :: s.takeWhile isBlank) ++
              ("from".toList ++ (r.takeWhile isBlank ++ (source ++ rest))) := by
            rw [← hs, List.takeWhile_append_dropWhile, ← dropStart?_eq_some.1 hr, List.cons_append,
              List.takeWhile_append_dropWhile]
          rw [hline]
          exact .mk hbefore hafter hquoted (semicolon?_eq_some.1 hsemicolon)
        · exact absurd h nofun
      · exact absurd h nofun
  · rintro ⟨hbefore, hafter, hquoted, hfinish⟩
    rename_i g g' e
    obtain ⟨c, g, rfl⟩ := List.exists_cons_of_ne_nil hbefore.1
    obtain ⟨c', g', rfl⟩ := List.exists_cons_of_ne_nil hafter.1
    have hsource : ∀ x ∈ (t.source ++ e).head?, isBlank x = false := by
      obtain ⟨q, body, q', hq, -, -, -, hs⟩ := hquoted
      rw [hs]
      rintro x ⟨⟩
      rcases Bool.or_eq_true _ _ ▸ hq with hq | hq <;> rw [beq_iff_eq.1 hq] <;> rfl
    have hfrom := (span_run (fun x hx => hbefore.2 x (List.mem_cons_of_mem c hx))
      (s := "from".toList ++ (c' :: g' ++ (t.source ++ e))) (by rintro x ⟨⟩; rfl)).2
    have hgap := (span_run hafter.2 hsource).2
    have hblank : (((c' :: g' ++ (t.source ++ e)).head?).map isBlank).getD false = true :=
      hafter.2 c' List.mem_cons_self
    rw [List.cons_append, tail?, if_pos (hbefore.2 c List.mem_cons_self), hfrom,
      dropStart?_eq_some.2 rfl]
    simp only [Option.bind_eq_bind, Option.bind_some, hblank, if_true, hgap, source?_eq_some.2 ⟨hquoted, rfl⟩,
      semicolon?_eq_some.2 hfinish]
    rfl

lemma isQuote_of_isBlank {c : Char} (h : isBlank c = true) : isQuote c = false := by
  rw [Bool.eq_false_iff]
  intro hq
  rcases Bool.or_eq_true _ _ ▸ hq with hq | hq <;> rw [beq_iff_eq.1 hq] at h <;> exact absurd h (by decide)

lemma isQuote_of_mem_from {c : Char} (h : c ∈ ['f', 'r', 'o', 'm']) : isQuote c = false :=
  List.all_eq_true.1 (by decide : ['f', 'r', 'o', 'm'].all (fun c => isQuote c == false) = true) c h |> beq_iff_eq.1

/-- Two quotes stand in the end of a statement, and nothing but blanks and `from` before the first of them. -/
lemma Ends.quotes {s : List Char} {t : Tail} (h : Ends t s) :
    ∃ a r, s = a ++ r ∧ (∀ c ∈ a, isQuote c = false) ∧ (∀ c ∈ r.head?, isQuote c = true) ∧
      r.countP isQuote = 2 ∧ a.filter (fun c => !isBlank c) = "from".toList := by
  obtain ⟨hbefore, hafter, ⟨q, body, q', hq, hq', -, hbody, hsource⟩, b, b', hb, hb', hm, rfl⟩ := h
  rename_i g g'
  have blanks {g : List Char} (hg : ∀ c ∈ g, isBlank c = true) : g.countP isQuote = 0 ∧
      g.filter (fun c => !isBlank c) = [] :=
    ⟨List.countP_eq_zero.2 fun c hc => by simp [isQuote_of_isBlank (hg c hc)],
      List.filter_eq_nil_iff.2 fun c hc => by simp [hg c hc]⟩
  refine ⟨g ++ ("from".toList ++ g'), t.source ++ (b ++ (t.semicolon ++ b')), by simp, fun c hc => ?_, ?_, ?_, ?_⟩
  · rcases List.mem_append.1 hc with hc | hc
    · exact isQuote_of_isBlank (hbefore.2 c hc)
    · rcases List.mem_append.1 hc with hc | hc
      · exact isQuote_of_mem_from hc
      · exact isQuote_of_isBlank (hafter.2 c hc)
  · rw [hsource]
    rintro c ⟨⟩
    exact hq
  · have hzero : body.countP isQuote = 0 := List.countP_eq_zero.2 fun c hc => by simp [hbody c hc]
    have hsemi : t.semicolon.countP isQuote = 0 := by rcases hm with hm | hm <;> rw [hm] <;> decide
    simp [hsource, List.countP_append, hzero, hsemi, (blanks hb).1, (blanks hb').1, hq, hq']
  · rw [List.filter_append, List.filter_append, (blanks hbefore.2).2, (blanks hafter.2).2]
    decide

lemma Ends.countP_isQuote {s : List Char} {t : Tail} (h : Ends t s) : s.countP isQuote = 2 := by
  obtain ⟨a, r, rfl, ha, -, hr, -⟩ := h.quotes
  rw [List.countP_append, hr, List.countP_eq_zero.2 fun c hc => by simp [ha c hc]]

/-- Only blanks can stand between two places that are both the end. -/
lemma Ends.unique {s y : List Char} {t t' : Tail} (h : Ends t s) (h' : Ends t' (y ++ s)) :
    ∀ c ∈ y, isBlank c = true := by
  have hy : ∀ c ∈ y, isQuote c = false := by
    have hcount := h'.countP_isQuote
    rw [List.countP_append, h.countP_isQuote] at hcount
    have hzero : y.countP isQuote = 0 := by omega
    exact fun c hc => by simpa using List.countP_eq_zero.1 hzero c hc
  obtain ⟨a, r, rfl, ha, hr, -, hbare⟩ := h.quotes
  obtain ⟨a', r', hs, ha', hr', -, hbare'⟩ := h'.quotes
  -- The first quote is at the same place for both.
  have hfirst : y ++ a = a' := by
    have hspan := (span_run (p := fun c => !isQuote c) (g := y ++ a) (s := r)
      (fun c hc => by rcases List.mem_append.1 hc with hc | hc <;> simp [hy c, ha c, hc])
      fun c hc => by simp [hr c hc]).1
    have hspan' := (span_run (p := fun c => !isQuote c) (g := a') (s := r')
      (fun c hc => by simp [ha' c hc]) fun c hc => by simp [hr' c hc]).1
    rw [← hspan, ← hspan', List.append_assoc, hs]
  rw [← hfirst, List.filter_append, hbare] at hbare'
  have hnil := List.append_left_eq_self.1 hbare'
  exact fun c hc => by simpa using List.filter_eq_nil_iff.1 hnil c hc

lemma Ends.head {s : List Char} {t : Tail} (h : Ends t s) : ∃ b r, s = b :: r ∧ isBlank b = true := by
  obtain ⟨hbefore, -, -, -⟩ := h
  rename_i g g' e
  obtain ⟨b, g, rfl⟩ := List.exists_cons_of_ne_nil hbefore.1
  exact ⟨b, _, rfl, hbefore.2 b List.mem_cons_self⟩

/-! ### The clause -/

/-- A text on one line that neither starts nor ends with a blank. -/
structure Solid (c : List Char) : Prop where
  first : ∃ x r, c = x :: r ∧ isBlank x = false
  last : ∃ r x, c = r ++ [x] ∧ isBlank x = false
  oneLine : '\n' ∉ c

/-- What is read as a clause is followed by the end of the statement. -/
lemma of_clause? {s c : List Char} {t : Tail} (h : clause? s = some (c, t)) :
    c ≠ [] ∧ ∃ z, s = c ++ z ∧ Ends t z := by
  induction s generalizing c with
  | nil => exact absurd h nofun
  | cons x s ih =>
    rw [clause?] at h
    split at h
    · exact absurd h nofun
    · split at h
      · rename_i hx t' ht
        obtain ⟨rfl, rfl⟩ := Prod.mk.inj (Option.some.inj h)
        exact ⟨List.cons_ne_nil x [], s, rfl, tail?_eq_some.1 ht⟩
      · obtain ⟨⟨c', t'⟩, hc, h⟩ := Option.map_eq_some_iff.1 h
        obtain ⟨rfl, rfl⟩ := Prod.mk.inj h
        obtain ⟨-, z, rfl, hz⟩ := ih hc
        exact ⟨List.cons_ne_nil x c', z, rfl, hz⟩

/-- The clause is what stands before the end. -/
theorem clause?_append {c rest : List Char} {t : Tail} (hlast : ∃ r x, c = r ++ [x] ∧ isBlank x = false)
    (hline : '\n' ∉ c) (h : Ends t rest) : clause? (c ++ rest) = some (c, t) := by
  obtain ⟨r, x, rfl, hx⟩ := hlast
  induction r with
  | nil =>
    have hfeed : (x == '\n') = false := beq_false_of_ne fun hn => hline (by simp [hn])
    simp [clause?, hfeed, tail?_eq_some.2 h]
  | cons y r ih =>
    have hfeed : (y == '\n') = false := beq_false_of_ne fun hn => hline (by simp [hn])
    have hearly : tail? (r ++ [x] ++ rest) = none := by
      rcases ht : tail? (r ++ [x] ++ rest) with _ | t'
      · rfl
      · have hblank := h.unique (tail?_eq_some.1 ht) x (by simp)
        rw [hblank] at hx
        cases hx
    have hrest := ih fun hn => hline (List.mem_cons_of_mem y hn)
    rw [List.cons_append, List.cons_append, clause?, hfeed, hearly, hrest]
    rfl

/-- Where less than two blanks stand before `from`, there is no room for a clause before it. -/
lemma clause?_from {r g s : List Char} {t : Tail} (h : Ends t (r ++ (g ++ 'f' :: s))) (hlen : g.length ≤ 1) :
    clause? (g ++ 'f' :: s) = none := by
  rcases hc : clause? (g ++ 'f' :: s) with _ | ⟨c, t'⟩
  · rfl
  · obtain ⟨hne, z, hs, hz⟩ := of_clause? hc
    obtain ⟨b, r, rfl, hb⟩ := hz.head
    obtain ⟨x, c, rfl⟩ := List.exists_cons_of_ne_nil hne
    rw [hs, ← List.append_assoc] at h
    have hblank := hz.unique h
    -- The `f` stands among the first two of what was read, which are blank.
    have hf : isBlank 'f' = true := by
      rcases g with _ | ⟨y, _ | ⟨y', g⟩⟩
      · obtain ⟨rfl, -⟩ := List.cons.inj hs
        exact hblank 'f' (by simp)
      · rcases c with _ | ⟨x', c⟩
        · obtain ⟨rfl, -⟩ := List.cons.inj (List.cons.inj hs).2
          exact hb
        · obtain ⟨rfl, -⟩ := List.cons.inj (List.cons.inj hs).2
          exact hblank 'f' (by simp)
      · simp at hlen
    exact absurd hf (by decide)

/-! ### The whole line -/

lemma firstDown_some {α : Type} {f : Nat → Option α} {n : Nat} {x : α} (hn : n ≠ 0) (h : f n = some x) :
    firstDown f n = some x := by
  cases n with
  | zero => exact absurd rfl hn
  | succ n => rw [firstDown, h, Option.some_or]

lemma firstDown_none {α : Type} {f : Nat → Option α} {n : Nat} (h : ∀ k, k ≠ 0 → k ≤ n → f k = none) :
    firstDown f n = none := by
  induction n with
  | zero => rfl
  | succ n ih =>
    rw [firstDown, h (n + 1) (Nat.succ_ne_zero n) le_rfl, Option.none_or]
    exact ih fun k hk hkn => h k hk (by omega)

/-- The parts of a statement after `import`. -/
def parts (indent mark clause : List Char) (t : Tail) : ImportLine := ⟨indent, mark, clause, t.source, t.semicolon⟩

/-- With `type` and blanks in front, a text is read as a statement with that mark. -/
theorem body?_marked {indent g c rest : List Char} {t : Tail} (hg : Many isBlank g) (hc : Solid c) (h : Ends t rest) :
    body? indent ("type".toList ++ (g ++ (c ++ rest))) = some (parts indent ("type".toList ++ g) c t) := by
  obtain ⟨x, r, hx, hblank⟩ := hc.first
  have hspan := (span_run hg.2 (s := c ++ rest) (by rw [hx]; rintro y ⟨⟩; exact hblank)).1
  have hlen : g.length ≠ 0 := fun h => hg.1 (List.length_eq_zero_iff.1 h)
  rw [body?, dropStart?_eq_some.2 rfl]
  simp only [Option.bind_eq_bind, Option.bind_some, hspan]
  rw [firstDown_some hlen]
  · rfl
  · rw [List.drop_left, List.take_left, clause?_append hc.last hc.oneLine h]
    rfl

/-- Whether a text whose statement has no mark is read with one: `type` and blanks stand in front of what can be a
clause. -/
def Misread (c g : List Char) : Prop :=
  (∃ b r, c = "type".toList ++ b :: r ∧ isBlank b = true) ∨ (c = "type".toList ∧ 2 < g.length)

lemma isBlank_of_mem_type {c : Char} (h : c ∈ ['t', 'y', 'p', 'e']) : isBlank c = false :=
  List.all_eq_true.1 (by decide : ['t', 'y', 'p', 'e'].all (fun c => isBlank c == false) = true) c h |> beq_iff_eq.1

/-- A text that does not look marked is read as a statement without the mark. -/
theorem body?_unmarked {indent c g s : List Char} {t : Tail} (hg : ∀ x ∈ g, isBlank x = true) (hc : Solid c)
    (h : Ends t (g ++ 'f' :: s)) (hm : ¬ Misread c g) :
    body? indent (c ++ (g ++ 'f' :: s)) = some (parts indent [] c t) := by
  have hplain : ∀ k, c = "type".toList → k ≠ 0 → k ≤ ((g ++ 'f' :: s).takeWhile isBlank).length →
      clause? ((g ++ 'f' :: s).drop k) = none := by
    intro k hk hk0 hlen
    rw [(span_run hg (by rintro x ⟨⟩; rfl)).1] at hlen
    have hshort : g.length ≤ 2 := not_lt.1 fun hlt => hm (.inr ⟨hk, hlt⟩)
    rw [← List.take_append_drop k g, List.append_assoc] at h
    rw [List.drop_append_of_le_length hlen]
    exact clause?_from h (by rw [List.length_drop]; omega)
  have hmark : ∀ r, c ++ (g ++ 'f' :: s) = "type".toList ++ r → ∀ k, k ≠ 0 → k ≤ (r.takeWhile isBlank).length →
      clause? (r.drop k) = none := by
    intro r hr k hk0 hlen
    rcases List.append_eq_append_iff.1 hr with ⟨a, hk, hrest⟩ | ⟨a, hk, rfl⟩
    · rcases a with _ | ⟨x, a⟩
      · rw [List.nil_append] at hrest
        rw [← hrest] at hlen ⊢
        exact hplain k (by rw [hk, List.append_nil]) hk0 hlen
      · obtain ⟨b, r', hb, hblank⟩ := h.head
        rw [hrest] at hb
        obtain ⟨rfl, -⟩ := List.cons.inj hb
        have hx : x ∈ ['t', 'y', 'p', 'e'] := by
          rw [show ['t', 'y', 'p', 'e'] = "type".toList from rfl, hk]
          simp
        rw [isBlank_of_mem_type hx] at hblank
        cases hblank
    · rcases a with _ | ⟨x, a⟩
      · exact hplain k (by rw [hk, List.append_nil]) hk0 hlen
      · have hx : isBlank x = false := Bool.eq_false_iff.2 fun hx => hm (.inl ⟨x, a, hk, hx⟩)
        simp [hx] at hlen
        exact absurd hlen hk0
  rw [body?]
  rcases hs : dropStart? "type".toList (c ++ (g ++ 'f' :: s)) with _ | r
  · simp only [Option.bind_eq_bind, Option.bind_none, Option.none_or, clause?_append hc.last hc.oneLine h]
    rfl
  · have hnone := hmark r (dropStart?_eq_some.1 hs)
    simp only [Option.bind_eq_bind, Option.bind_some]
    rw [firstDown_none fun k hk hlen => by rw [hnone k hk hlen]; rfl, Option.none_or,
      clause?_append hc.last hc.oneLine h]
    rfl

/-- Where more than two blanks stand between `type` and `from`, one of them is read as the clause. -/
theorem body?_spaced {indent g s : List Char} {t : Tail} (hg : ∀ x ∈ g, isBlank x = true) (hline : '\n' ∉ g)
    (hlen : 2 < g.length) (h : ∀ g', Many isBlank g' → Ends t (g' ++ 'f' :: s)) :
    ∃ mark b, isBlank b = true ∧ body? indent ("type".toList ++ (g ++ 'f' :: s)) = some (parts indent mark [b] t) := by
  obtain ⟨g, b', rfl⟩ := (List.eq_nil_or_concat g).resolve_left fun h => by simp [h] at hlen
  obtain ⟨g, b, rfl⟩ := (List.eq_nil_or_concat g).resolve_left fun h => by simp [h] at hlen
  have htext : (g.concat b).concat b' ++ 'f' :: s = g ++ b :: b' :: 'f' :: s := by simp
  have hb : isBlank b = true := hg b (by simp)
  have hall := h ((g.concat b).concat b') ⟨by simp, hg⟩
  have hlast : clause? ('f' :: s) = none := clause?_from (g := []) hall (by simp)
  have hsecond : clause? (b' :: 'f' :: s) = none :=
    clause?_from (r := g.concat b) (g := [b']) (by simpa using hall) (by simp)
  have hfound : clause? (b :: b' :: 'f' :: s) = some ([b], t) := by
    have htail : tail? (b' :: 'f' :: s) = some t :=
      tail?_eq_some.2 (h [b'] ⟨List.cons_ne_nil b' [], fun x hx => hg x (by simp_all)⟩)
    have hfeed : (b == '\n') = false := beq_false_of_ne fun hb => hline (by simp [hb])
    simp [clause?, hfeed, htail]
  obtain ⟨n, hn⟩ : ∃ n, g.length = n + 1 := ⟨g.length - 1, by simp at hlen; omega⟩
  have hblanks : ((g ++ b :: b' :: 'f' :: s).takeWhile isBlank).length = n + 3 := by
    rw [← htext, (span_run hg (by rintro x ⟨⟩; rfl)).1]
    simp [hn]
  have hdrop (k : Nat) : (g ++ b :: b' :: 'f' :: s).drop (n + 1 + k) = (b :: b' :: 'f' :: s).drop k := by
    rw [← hn, List.drop_length_add_append]
  have hread : clause? ((g ++ b :: b' :: 'f' :: s).drop (n + 1)) = some ([b], t) := (hdrop 0).symm ▸ hfound
  refine ⟨"type".toList ++ g, b, hb, ?_⟩
  rw [body?, dropStart?_eq_some.2 rfl, htext]
  simp only [Option.bind_eq_bind, Option.bind_some, hblanks]
  rw [firstDown, firstDown, firstDown, hdrop 2, hdrop 1, hread, ← hn, List.take_left]
  simp only [List.drop_succ_cons, List.drop_zero, hlast, hsecond]
  rfl

/-- A line is read from its indentation on. -/
theorem ofText?_append {indent g s : List Char} {l : ImportLine} (hi : ∀ c ∈ indent, isBlank c = true)
    (hg : Many isBlank g) (hs : ∀ c ∈ s.head?, isBlank c = false) (h : body? indent s = some l) :
    ofText? (indent ++ ("import".toList ++ (g ++ s))) = some l := by
  obtain ⟨hindent, hrest⟩ := span_run hi (s := "import".toList ++ (g ++ s)) (by rintro c ⟨⟩; rfl)
  have hlen : g.length ≠ 0 := fun h => hg.1 (List.length_eq_zero_iff.1 h)
  rw [ofText?, hindent, hrest, dropStart?_eq_some.2 rfl]
  simp only [Option.bind_eq_bind, Option.bind_some, (span_run hg.2 hs).1]
  exact firstDown_some hlen (by rw [List.drop_left, h])

/-- A line with a clause and an end is read in some way. -/
lemma exists_ofText? {indent g c rest : List Char} {t : Tail} (hi : ∀ x ∈ indent, isBlank x = true)
    (hg : Many isBlank g) (hc : Solid c) (h : Ends t rest) :
    ∃ l, ofText? (indent ++ ("import".toList ++ (g ++ (c ++ rest)))) = some l := by
  have hclause := clause?_append hc.last hc.oneLine h
  obtain ⟨l, hl⟩ : ∃ l, body? indent (c ++ rest) = some l := by
    rw [← Option.isSome_iff_exists, body?, Option.isSome_or, hclause, Option.map_some, Option.isSome_some, Bool.or_true]
  obtain ⟨x, r, rfl, hx⟩ := hc.first
  exact ⟨l, ofText?_append hi hg (by rintro y ⟨⟩; exact hx) hl⟩

end ImportLine

end Ratchet
