import Ratchet.Proofs.ImportLine.Clause

/-!
Import statements on a line.

A `Layout` says where the blanks stand when a statement is written on a line. Such a line is read as the statement
(`ofText?_line`), unless it looks marked with `type` and is not (`Layout.Misread`). Without its unused bindings it is a
line of the same statement with the other bindings, or no line when no binding is left; `Cleaned` says so, and
`cleaned_iff` that it holds of every line that is not misread, and of no other.
-/

namespace Ratchet.ImportLine

open Text

/-! ### Statements -/

/-- A blank that stays on the line. -/
def isGap (c : Char) : Bool := isBlank c && c != '\n'

lemma isBlank_of_isGap {c : Char} (h : isGap c = true) : isBlank c = true := by
  rw [isGap, Bool.and_eq_true] at h
  exact h.1

lemma feed_of_isGap {g : List Char} (h : ∀ c ∈ g, isGap c = true) : '\n' ∉ g :=
  fun hc => absurd (h _ hc) (by decide)

lemma many_blank {g : List Char} (h : Many isGap g) : Many isBlank g :=
  ⟨h.1, fun c hc => isBlank_of_isGap (h.2 c hc)⟩

/-- An import statement. -/
structure Statement where
  indent : List Char
  /-- Whether it has the mark `type`. -/
  typed : Bool
  clause : Clause
  /-- The source with its quotes. -/
  source : List Char
  semicolon : Bool
  gap : ∀ c ∈ indent, isGap c = true
  quoted : Quoted source
  oneLine : '\n' ∉ source

namespace Statement

/-- The end of a statement. -/
def tail (s : Statement) : Tail := ⟨s.source, if s.semicolon then [';'] else []⟩

lemma blank (s : Statement) : ∀ c ∈ s.indent, isBlank c = true := fun c hc => isBlank_of_isGap (s.gap c hc)

end Statement

/-- A way to write a statement on a line. -/
structure Layout (s : Statement) where
  afterImport : List Char
  /-- The blanks after `type`, where the statement has the mark. -/
  afterMark : List Char
  clause : List Char
  beforeFrom : List Char
  afterFrom : List Char
  /-- The blanks after the source. -/
  afterSource : List Char
  atEnd : List Char
  many_afterImport : Many isGap afterImport
  many_afterMark : Many isGap afterMark
  many_beforeFrom : Many isGap beforeFrom
  many_afterFrom : Many isGap afterFrom
  gap_afterSource : ∀ c ∈ afterSource, isGap c = true
  gap_atEnd : ∀ c ∈ atEnd, isGap c = true
  spelled : s.clause.Spelled clause
  solid : Solid clause

namespace Layout

variable {s : Statement}

/-- `type` and the blanks after it, if it is there. -/
def mark (l : Layout s) : List Char := if s.typed then "type".toList ++ l.afterMark else []

/-- What stands behind `from`. -/
def behindFrom (l : Layout s) : List Char :=
  l.afterFrom ++ (s.source ++ (l.afterSource ++ (s.tail.semicolon ++ l.atEnd)))

/-- The line. -/
def line (l : Layout s) : List Char :=
  s.indent ++ ("import".toList ++ (l.afterImport ++ (l.mark ++ (l.clause ++ (l.beforeFrom ++
    ("from".toList ++ l.behindFrom))))))

/-- Whether the line looks as if it had the mark `type` although it has none: the default binding is `type`, and a
blank follows it in the clause, or it is the whole clause and more than two blanks follow. -/
def Misread (l : Layout s) : Prop := s.typed = false ∧ ImportLine.Misread l.clause l.beforeFrom

lemma ends (l : Layout s) {g : List Char} (hg : Many isBlank g) :
    Ends s.tail (g ++ ("from".toList ++ l.behindFrom)) := by
  refine .mk hg (many_blank l.many_afterFrom) s.quoted ⟨l.afterSource, l.atEnd,
    fun c hc => isBlank_of_isGap (l.gap_afterSource c hc), fun c hc => isBlank_of_isGap (l.gap_atEnd c hc), ?_, rfl⟩
  rw [Statement.tail]
  cases s.semicolon
  · exact .inl rfl
  · exact .inr rfl

/-- What stands before the clause. -/
def front (l : Layout s) : List Char := s.indent ++ ("import".toList ++ (l.afterImport ++ l.mark))

lemma line_eq (l : Layout s) :
    l.line = l.front ++ (l.clause ++ (l.beforeFrom ++ ("from".toList ++ l.behindFrom))) := by
  simp [line, front]

/-- With another clause the front of a line is read in the same way. -/
lemma ofText?_front (l : Layout s) {c g r : List Char} {t : Tail} (hc : Solid c) (hg : Many isBlank g)
    (h : Ends t (g ++ ("from".toList ++ r))) (hm : ¬ (s.typed = false ∧ ImportLine.Misread c g)) :
    ofText? (l.front ++ (c ++ (g ++ ("from".toList ++ r)))) = some (parts s.indent l.mark c t) := by
  obtain ⟨x, q, hx, hblank⟩ := hc.first
  rw [front, List.append_assoc, List.append_assoc, List.append_assoc]
  refine ofText?_append s.blank (many_blank l.many_afterImport) ?_ ?_
  · rw [mark]
    split
    · rintro c ⟨⟩
      rfl
    · rw [hx]
      rintro c ⟨⟩
      exact hblank
  · cases htyped : s.typed with
    | true =>
      have hmark : l.mark = "type".toList ++ l.afterMark := by simp [mark, htyped]
      rw [hmark, List.append_assoc]
      exact body?_marked (many_blank l.many_afterMark) hc h
    | false =>
      have hmark : l.mark = [] := by simp [mark, htyped]
      rw [hmark]
      exact body?_unmarked hg.2 hc h fun hmis => hm ⟨htyped, hmis⟩

/-- **A line is read as the statement that is written on it**, unless it looks marked and is not. -/
theorem ofText?_line (l : Layout s) (h : ¬ l.Misread) :
    ofText? l.line = some (parts s.indent l.mark l.clause s.tail) := by
  have hbefore := many_blank l.many_beforeFrom
  rw [line_eq]
  exact l.ofText?_front l.solid hbefore (l.ends hbefore) h

/-- A line that looks marked is read without its default binding, which is `type`. -/
theorem ofText?_misread (l : Layout s) (h : l.Misread) : (∃ d, s.clause.default = some d ∧ d.text = "type".toList) ∧
    ∃ mark c, ofText? l.line = some (parts s.indent mark c s.tail) ∧
      Bindings.ofClause c = s.clause.undefault.texts ∧ ∀ x ∈ c.head?, isBlank x = true ∨ x = ',' := by
  obtain ⟨htyped, h⟩ := h
  have hmark : l.mark = [] := by simp [mark, htyped]
  obtain ⟨x, r, hx, hblank⟩ := l.solid.first
  have hhead : ∀ c ∈ (l.mark ++ (l.clause ++ (l.beforeFrom ++ ("from".toList ++ l.behindFrom)))).head?,
      isBlank c = false := by
    rw [hmark, hx]
    rintro c ⟨⟩
    exact hblank
  have hread {i : ImportLine} := ofText?_append (l := i) s.blank (many_blank l.many_afterImport) hhead
  have hbefore := many_blank l.many_beforeFrom
  rcases h with ⟨x, r, hc, hx⟩ | ⟨hc, hlen⟩
  · have hspelled := hc ▸ l.spelled
    have hsolid := hc ▸ l.solid
    obtain ⟨hdefault, b, t, hrest, hb, hclause⟩ := hspelled.type_first hsolid hx
    refine ⟨hdefault, "type".toList ++ b, ',' :: t, hread ?_, hclause, by rintro x ⟨⟩; exact .inr rfl⟩
    rw [hrest, ← List.append_assoc] at hsolid
    rw [hmark, hc, hrest, List.nil_append, List.append_assoc, List.append_assoc]
    exact body?_marked hb (hsolid.drop rfl) (l.ends hbefore)
  · have htexts : s.clause.texts = ⟨some "type".toList, none, []⟩ := by
      rw [← Clause.ofClause_spelled l.spelled, hc]
      rfl
    obtain ⟨d, hd, hword⟩ := Option.map_eq_some_iff.1 (congrArg Bindings.default htexts)
    have hundefault : s.clause.undefault.texts = ⟨none, none, []⟩ := by
      have hother : s.clause.undefault.texts = { s.clause.texts with default := none } := rfl
      rw [hother, htexts]
    obtain ⟨mark, b, hb, hbody⟩ := @body?_spaced s.indent _ _ _ hbefore.2 (feed_of_isGap l.many_beforeFrom.2) hlen
      fun g hg => l.ends hg
    refine ⟨⟨d, hd, hword⟩, mark, [b], hread ?_, ?_, by rintro x ⟨⟩; exact .inl hb⟩
    · rw [hmark, hc, List.nil_append]
      exact hbody
    · have hne (x : Char) (hx : isBlank x = false) : (b == x) = false := beq_false_of_ne fun h => by
        rw [← h, hb] at hx
        cases hx
      have htrim : trimList [b] = [] := by simp [trimList, trimWhile, hb]
      have hbrace : (b != '{') = true := by rw [bne, hne '{' rfl]; rfl
      rw [hundefault]
      simp [Bindings.ofClause, splitAtChar, hbrace, hne ',' rfl, Bindings.addPart, htrim, Bindings.items]

/-! ### Lines with single spaces -/

variable {m : List Char} (hm : Many isGap m) (hne : s.clause.bindings ≠ []) (hk : s.clause.named ≠ some [])

/-- A statement on a line with single spaces, but for those after the mark. -/
def singleSpaced : Layout s where
  afterImport := [' ']
  afterMark := m
  clause := s.clause.texts.clause
  beforeFrom := [' ']
  afterFrom := [' ']
  afterSource := []
  atEnd := []
  many_afterImport := ⟨List.cons_ne_nil _ _, by simp; rfl⟩
  many_afterMark := hm
  many_beforeFrom := ⟨List.cons_ne_nil _ _, by simp; rfl⟩
  many_afterFrom := ⟨List.cons_ne_nil _ _, by simp; rfl⟩
  gap_afterSource := nofun
  gap_atEnd := nofun
  spelled := by
    obtain ⟨bs, hbs, -, htext⟩ := Clause.clause_texts hk
    exact ⟨bs, hbs, htext ▸ listed_joinWith (Clause.parts_ne_nil hne hbs)⟩
  solid := by
    obtain ⟨bs, hbs, hsolid, htext⟩ := Clause.clause_texts hk
    exact htext ▸ solid_joinWith (Clause.parts_ne_nil hne hbs) (by decide) hsolid

lemma line_singleSpaced (c : List Char) : (singleSpaced hm hne hk).line =
    render (parts s.indent (if s.typed then "type".toList ++ m else []) c s.tail) s.clause.texts.clause := by
  simp [line, singleSpaced, mark, behindFrom, render, ImportLine.parts, Statement.tail]

/-- With single spaces nothing looks marked. -/
lemma not_misread_singleSpaced : ¬ (singleSpaced hm hne hk).Misread := by
  rintro ⟨-, ⟨x, r, hc, hx⟩ | ⟨-, hlen⟩⟩
  · have hspelled := (singleSpaced hm hne hk).spelled
    have hsolid := (singleSpaced hm hne hk).solid
    rw [hc] at hspelled hsolid
    obtain ⟨⟨d, hd, hword⟩, -⟩ := hspelled.type_first hsolid hx
    obtain ⟨bs, -, -, htext⟩ := Clause.clause_texts hk
    have hjoin : joinWith ", ".toList ("type".toList :: (s.clause.undefault.outside ++ bs)) =
        "type".toList ++ x :: r := by
      rw [← hc, ← hword, ← List.cons_append, ← Clause.outside_default hd]
      exact htext.symm
    rcases hrest : s.clause.undefault.outside ++ bs with _ | ⟨p, ps⟩
    · rw [hrest] at hjoin
      cases hjoin
    · rw [hrest, joinWith, List.append_assoc] at hjoin
      · obtain ⟨rfl, -⟩ := List.cons.inj (List.append_cancel_left hjoin)
        exact absurd hx (by decide)
      · exact List.cons_ne_nil p ps
  · exact absurd hlen (by simp [singleSpaced])

/-- The line of the statement with the bindings of another clause. -/
def withClause (l : Layout s) (k : Clause) (hne : k.bindings ≠ []) (hk : k.named ≠ some []) :
    Layout { s with clause := k } := singleSpaced l.many_afterMark hne hk

lemma line_withClause (l : Layout s) {k : Clause} (hne : k.bindings ≠ []) (hk : k.named ≠ some []) :
    (l.withClause k hne hk).line = render (parts s.indent l.mark l.clause s.tail) k.texts.clause :=
  line_singleSpaced (s := { s with clause := k }) _ hne hk l.clause

end Layout

/-! ### Unused bindings -/

/-- What becomes of the statement that is read on a line. -/
lemma rewrite_read {line indent mark c : List Char} {t : Tail} {k : Clause}
    (hread : ofText? line = some (parts indent mark c t)) (hc : Bindings.ofClause c = k.texts)
    (unused : List Char → Bool) :
    rewrite unused false line =
      ⟨if k.bindings.countP (·.isUnused unused) = 0 then some line
        else if (k.without unused).bindings = [] then none
        else some (render (parts indent mark c t) (k.without unused).texts.clause),
      k.bindings.countP (·.isUnused unused)⟩ := by
  have hcount : k.texts.toList.length - (k.without unused).texts.toList.length =
      k.bindings.countP (·.isUnused unused) := by
    have hsum := List.length_eq_countP_add_countP (l := k.bindings) fun b => b.isUnused unused
    rw [Clause.length_texts, Clause.length_texts, Clause.bindings_without, ← List.countP_eq_length_filter]
    simp only [Bool.not_eq_true, Bool.decide_eq_false] at hsum ⊢
    omega
  rw [rewrite, hread]
  simp only [ImportLine.parts, hc, Bool.false_eq_true, if_false, ← k.texts_without unused, hcount, beq_iff_eq,
    List.isEmpty_iff, Clause.toList_texts_eq_nil]
  split
  · rename_i hzero
    rw [hzero]
  · split <;> rfl

/-- A line whose bindings are all used is left alone. -/
lemma rewrite_used {s : Statement} {l : Layout s} (h : ¬ l.Misread) {unused : List Char → Bool}
    (hused : ∀ b ∈ s.clause.bindings, b.isUnused unused = false) :
    rewrite unused false l.line = ⟨some l.line, 0⟩ := by
  have hzero : s.clause.bindings.countP (·.isUnused unused) = 0 := List.countP_eq_zero.2 fun b hb => by simp [hused b hb]
  rw [rewrite_read (l.ofText?_line h) (Clause.ofClause_spelled l.spelled), hzero, if_pos rfl]

/-- What is asked of a line without its unused bindings: nothing happens to it when it has none of them, it goes when
it has no others, and else it is again a line of the statement, with the bindings that are used. -/
structure Cleaned {s : Statement} (l : Layout s) (unused : List Char → Bool) (r : Rewritten) : Prop where
  removed : r.removed = s.clause.bindings.countP (·.isUnused unused)
  untouched : (∀ b ∈ s.clause.bindings, b.isUnused unused = false) → r.line = some l.line
  dropped : s.clause.bindings ≠ [] → (∀ b ∈ s.clause.bindings, b.isUnused unused = true) → r.line = none
  kept : (∃ b ∈ s.clause.bindings, b.isUnused unused = true) → (∃ b ∈ s.clause.bindings, b.isUnused unused = false) →
    ∃ (k : Clause) (l' : Layout { s with clause := k }),
      k.bindings = s.clause.bindings.filter (fun b => !b.isUnused unused) ∧ r.line = some l'.line
  again : ∀ line ∈ r.line, rewrite unused false line = ⟨some line, 0⟩

lemma cleaned_of_not_misread {s : Statement} {l : Layout s} (h : ¬ l.Misread) (unused : List Char → Bool) :
    Cleaned l unused (rewrite unused false l.line) := by
  have hkept := s.clause.bindings_without unused
  have hnamed := s.clause.named_without_ne unused
  have hnone : (s.clause.without unused).bindings = [] ↔ ∀ b ∈ s.clause.bindings, b.isUnused unused = true := by
    simp [hkept, List.filter_eq_nil_iff]
  by_cases hused : ∀ b ∈ s.clause.bindings, b.isUnused unused = false
  · have hsame := rewrite_used h hused
    rw [hsame]
    refine ⟨(List.countP_eq_zero.2 fun b hb => by simp [hused b hb]).symm, fun _ => rfl, fun hne hall => ?_,
      fun ⟨b, hb, hunused⟩ => ?_, fun line hl => ?_⟩
    · obtain ⟨b, hb⟩ := List.exists_mem_of_ne_nil _ hne
      exact absurd (hall b hb) (by simp [hused b hb])
    · exact absurd hunused (by simp [hused b hb])
    · obtain rfl := Option.some.inj hl
      exact hsame
  · have hcount : s.clause.bindings.countP (·.isUnused unused) ≠ 0 := fun hzero =>
      hused fun b hb => by simpa using List.countP_eq_zero.1 hzero b hb
    rw [rewrite_read (l.ofText?_line h) (Clause.ofClause_spelled l.spelled), if_neg hcount]
    refine ⟨rfl, fun hall => absurd hall hused, fun _ hall => if_pos (hnone.2 hall), fun _ ⟨b, hb, hother⟩ => ?_,
      fun line hl => ?_⟩
    · have hne : (s.clause.without unused).bindings ≠ [] := fun hnil => by
        rw [hnone.1 hnil b hb] at hother
        cases hother
      exact ⟨_, l.withClause _ hne hnamed, hkept, by rw [if_neg hne, l.line_withClause]⟩
    · split at hl
      · cases hl
      · rename_i hne
        obtain rfl := Option.some.inj hl
        rw [← l.line_withClause hne hnamed]
        refine rewrite_used (Layout.not_misread_singleSpaced _ hne hnamed) fun b hb => ?_
        rw [hkept] at hb
        simpa using (List.mem_filter.1 hb).2

/-- **A line with an import statement loses its unused bindings and nothing else**, whichever they are, unless it is
unmarked and looks marked: its default binding is `type`, and a blank follows it in the clause, or it is the whole
clause and more than two blanks stand before `from`. -/
theorem cleaned_iff {s : Statement} (l : Layout s) :
    (∀ unused, Cleaned l unused (rewrite unused false l.line)) ↔ ¬ l.Misread := by
  refine ⟨fun h hm => ?_, cleaned_of_not_misread⟩
  -- The default binding is not seen, so it is not counted.
  obtain ⟨⟨d, hd, hword⟩, mark, c, hread, hc, -⟩ := l.ofText?_misread hm
  have hcount := (h (· == "type".toList)).removed
  rw [rewrite_read hread hc] at hcount
  have hbindings : s.clause.bindings = .default d :: s.clause.undefault.bindings := by
    simp [Clause.bindings, Clause.undefault, hd]
  rw [hbindings, List.countP_cons_of_pos (by simp [Binding.isUnused, Binding.localName, hword])] at hcount
  exact absurd hcount.symm (Nat.succ_ne_self _)

/-- A default binding `type`, and `a` in braces. -/
def typeAndName : Statement where
  indent := []
  typed := false
  clause := ⟨some ⟨"type".toList, plain_type⟩, none,
    some [⟨false, ⟨['a'], List.cons_ne_nil _ _, by simp; rfl⟩, none, by decide⟩]⟩
  source := "'x'".toList
  semicolon := false
  gap := nofun
  quoted := ⟨'\'', ['x'], '\'', rfl, rfl, List.cons_ne_nil _ _, by simp; rfl, rfl⟩
  oneLine := by decide

/-- A space stands before the comma. -/
def spacedComma : Layout typeAndName where
  afterImport := [' ']
  afterMark := [' ']
  clause := "type , \x7b a \x7d".toList
  beforeFrom := [' ']
  afterFrom := [' ']
  afterSource := []
  atEnd := []
  many_afterImport := ⟨List.cons_ne_nil _ _, by simp; rfl⟩
  many_afterMark := ⟨List.cons_ne_nil _ _, by simp; rfl⟩
  many_beforeFrom := ⟨List.cons_ne_nil _ _, by simp; rfl⟩
  many_afterFrom := ⟨List.cons_ne_nil _ _, by simp; rfl⟩
  gap_afterSource := nofun
  gap_atEnd := nofun
  spelled := ⟨_, .present (t := " a ".toList) (.plain (.last (b := [' ']) (e := [' ']) (by simp; rfl) (by simp; rfl))),
    .cons (b := []) (e := [' ']) nofun (by simp; rfl) (.last (b := [' ']) (e := []) (by simp; rfl) nofun)⟩
  solid := ⟨⟨'t', _, rfl, rfl⟩, ⟨"type , \x7b a ".toList, '\x7d', rfl, rfl⟩, by decide⟩

/-- The whole line goes for its binding `a`, with the default binding that is used. -/
theorem not_cleaned_default_type : spacedComma.line = "import type , \x7b a \x7d from 'x'".toList ∧
    ¬ Cleaned spacedComma (· == ['a']) (rewrite (· == ['a']) false spacedComma.line) := by
  have hgone : rewrite (· == ['a']) false spacedComma.line = ⟨none, 1⟩ := by decide
  refine ⟨rfl, fun h => ?_⟩
  rw [hgone] at h
  obtain ⟨k, l, -, hline⟩ := h.kept ⟨_, .tail _ (.head _), rfl⟩ ⟨_, .head _, rfl⟩
  cases hline

end Ratchet.ImportLine
