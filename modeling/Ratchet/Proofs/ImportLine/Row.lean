import Ratchet.Proofs.ImportLine.Statement

/-!
Lines with several import statements.

A `Row` is a line of statements with semicolons between them. It is read as one statement: what is read as its clause
goes on to the end of the last statement, and the source that is read is that of the last one (`ofText?_row`). What
becomes of the line is then what becomes of its first statement, with the source of the last one. `spared_iff` says
when the line keeps what it should keep nevertheless.
-/

namespace Ratchet.ImportLine

open Text

/-- Statements on one line, with semicolons between them. -/
inductive Row : List Statement → List Char → Prop
  | last {s : Statement} (l : Layout s) : Row [s] l.line
  | cons {s : Statement} {ss : List Statement} {line : List Char} (l : Layout s) (open_ : s.semicolon = false)
    (rest : Row ss line) : Row (s :: ss) (l.line ++ ';' :: line)

/-- The bindings of statements, with their sources. -/
def imports (ss : List Statement) : List (Binding × List Char) :=
  ss.flatMap fun s => s.clause.bindings.map fun b => (b, s.source)

/-- Whether a line imports something. -/
def Imports (line : List Char) (i : Binding × List Char) : Prop := ∃ ss, Row ss line ∧ i ∈ imports ss

/-- Whether a line is left alone, or what is needed is still imported. -/
def Spared (line : List Char) (r : Rewritten) (needed : List (Binding × List Char)) : Prop :=
  r.line = some line ∨ ∀ i ∈ needed, ∃ out ∈ r.line, Imports out i

/-! ### How a row is read -/

namespace Layout

variable {s : Statement}

lemma oneLine (l : Layout s) : '\n' ∉ l.line := by
  have hgap {g : List Char} (hg : ∀ c ∈ g, isGap c = true) := feed_of_isGap hg
  have hmark : '\n' ∉ l.mark := by
    rw [mark]
    split
    · exact fun h => (List.mem_append.1 h).elim (not_mem_of_plain plain_type.2 rfl) (hgap l.many_afterMark.2)
    · exact List.not_mem_nil
  have hsemicolon : '\n' ∉ s.tail.semicolon := by
    simp only [Statement.tail]
    split <;> decide
  simp [line, behindFrom, hgap s.gap, hgap l.many_afterImport.2, hmark, l.solid.oneLine, hgap l.many_beforeFrom.2,
    hgap l.many_afterFrom.2, s.oneLine, hgap l.gap_afterSource, hsemicolon, hgap l.gap_atEnd]

/-- A line has the two quotes of its source. -/
lemma countP_isQuote (l : Layout s) : l.line.countP isQuote = 2 := by
  have hgap {g : List Char} (hg : ∀ c ∈ g, isGap c = true) : g.countP isQuote = 0 :=
    List.countP_eq_zero.2 fun c hc => by simp [isQuote_of_isBlank (isBlank_of_isGap (hg c hc))]
  have hplain {w : List Char} (hw : ∀ c ∈ w, isPlain c = true) : w.countP isQuote = 0 :=
    List.countP_eq_zero.2 fun c hc => by simp [not_isQuote_of_isPlain (hw c hc)]
  have hmark : l.mark.countP isQuote = 0 := by
    rw [mark]
    split
    · rw [List.countP_append, hplain plain_type.2, hgap l.many_afterMark.2]
    · rfl
  have hclause : l.clause.countP isQuote = 0 := List.countP_eq_zero.2 fun c hc => by simp [l.spelled.isQuote hc]
  rw [line_eq, front, List.countP_append, @List.countP_append _ _ l.clause,
    (l.ends (many_blank l.many_beforeFrom)).countP_isQuote, hclause, List.countP_append, List.countP_append,
    List.countP_append, hgap s.gap, hgap l.many_afterImport.2, hmark]
  decide

end Layout

lemma Row.ne_nil {ss : List Statement} {line : List Char} (h : Row ss line) : ss ≠ [] := by
  cases h <;> exact List.cons_ne_nil _ _

lemma Row.countP_isQuote {ss : List Statement} {line : List Char} (h : Row ss line) :
    line.countP isQuote = 2 * ss.length := by
  induction h with
  | last l => exact l.countP_isQuote
  | cons l _ _ ih =>
    rw [List.countP_append, List.countP_cons, l.countP_isQuote, ih, List.length_cons]
    simp [ImportLine.isQuote]
    omega

/-- A row ends as its last statement does. -/
lemma Row.apart {ss : List Statement} {line : List Char} (h : Row ss line) :
    ∃ q x g r, line = q ++ (x :: (g ++ ("from".toList ++ r))) ∧ isBlank x = false ∧ '\n' ∉ q ++ [x] ∧
      Many isBlank g ∧ ∃ s ∈ ss.getLast?, Ends s.tail (g ++ ("from".toList ++ r)) := by
  induction h with
  | @last s l =>
    obtain ⟨q, x, hc, hx⟩ := l.solid.last
    have hline := l.oneLine
    have hbefore := many_blank l.many_beforeFrom
    rw [l.line_eq, hc] at hline ⊢
    exact ⟨l.front ++ q, x, l.beforeFrom, l.behindFrom, by simp, hx, fun h => hline (by simp at h ⊢; tauto), hbefore, s,
      rfl, l.ends hbefore⟩
  | @cons s ss line l _ hrow ih =>
    obtain ⟨q, x, g, r, rfl, hx, hq, hg, t, ht, hends⟩ := ih
    refine ⟨l.line ++ ';' :: q, x, g, r, by simp, hx, fun h => ?_, hg, t, ?_, hends⟩
    · have hline := l.oneLine
      simp only [List.mem_append, List.mem_cons] at h hq
      rcases h with (h | h | h) | h
      · exact hline h
      · exact absurd h (by decide)
      · exact hq (.inl h)
      · exact hq (.inr h)
    · obtain ⟨u, us, rfl⟩ := List.exists_cons_of_ne_nil hrow.ne_nil
      rwa [List.getLast?_cons_cons]

/-- What follows the first clause of a row, up to the last end. -/
def Layout.onwards {s : Statement} (l : Layout s) (q : List Char) : List Char :=
  l.beforeFrom ++ ("from".toList ++ (l.behindFrom ++ ';' :: q))

/-- The first clause of a row goes on to the last end. -/
lemma Row.stretch {s : Statement} (l : Layout s) {ss : List Statement} {line : List Char} (h : Row ss line) :
    ∃ q g r, l.line ++ ';' :: line = l.front ++ ((l.clause ++ l.onwards q) ++ (g ++ ("from".toList ++ r))) ∧
      Solid (l.clause ++ l.onwards q) ∧ Many isBlank g ∧ ∃ t ∈ ss.getLast?, Ends t.tail (g ++ ("from".toList ++ r)) := by
  obtain ⟨q, x, g, r, hline, hx, hq, hg, t, ht, hends⟩ := h.apart
  refine ⟨q ++ [x], g, r, ?_, ⟨?_, ?_, ?_⟩, hg, t, ht, hends⟩
  · rw [hline, l.line_eq, Layout.onwards]
    simp
  · obtain ⟨y, w, hy, hblank⟩ := l.solid.first
    exact ⟨y, _, by rw [hy, List.cons_append], hblank⟩
  · exact ⟨l.clause ++ (l.beforeFrom ++ ("from".toList ++ (l.behindFrom ++ ';' :: q))), x,
      by simp [Layout.onwards], hx⟩
  · have hfirst := l.oneLine
    rw [l.line_eq] at hfirst
    intro h
    simp only [Layout.onwards, List.mem_append, List.mem_cons] at h hq hfirst
    rcases h with h | h | h | h | h | h | h
    · exact hfirst (.inr (.inl h))
    · exact hfirst (.inr (.inr (.inl h)))
    · exact hfirst (.inr (.inr (.inr (.inl h))))
    · exact hfirst (.inr (.inr (.inr (.inr h))))
    · exact absurd h (by decide)
    · exact hq (.inl h)
    · exact hq (.inr h)

/-- A row goes as a whole when the diagnostic is about all bindings of a statement. -/
lemma Row.rewrite_all {s : Statement} (l : Layout s) {ss : List Statement} {line : List Char} (h : Row ss line)
    (unused : List Char → Bool) : (rewrite unused true (l.line ++ ';' :: line)).line = none := by
  obtain ⟨q, g, r, hline, hsolid, -, t, -, hends⟩ := h.stretch l
  have hmarked : Solid (l.mark ++ (l.clause ++ l.onwards q)) := by
    rw [Layout.mark]
    split
    · rw [List.append_assoc]
      exact (solid_of_plain plain_type).append hsolid (feed_of_isGap l.many_afterMark.2)
    · exact hsolid
  obtain ⟨i, hi⟩ := exists_ofText? s.blank (many_blank l.many_afterImport) hmarked hends
  have htext : l.line ++ ';' :: line = s.indent ++ ("import".toList ++ (l.afterImport ++ (l.mark ++
      (l.clause ++ l.onwards q) ++ (g ++ ("from".toList ++ r))))) := by
    rw [hline, Layout.front]
    simp
  rw [htext, rewrite, hi]
  rfl

/-- A row whose first statement has braces is read as that statement, with the source of the last one. -/
lemma Row.ofText?_row {s : Statement} {l : Layout s} (hm : ¬ l.Misread) (hk : s.clause.named ≠ none)
    {ss : List Statement} {line : List Char} (h : Row ss line) :
    ∃ c, ∃ t ∈ ss.getLast?, ofText? (l.line ++ ';' :: line) = some (parts s.indent l.mark c t.tail) ∧
      Bindings.ofClause c = s.clause.texts := by
  obtain ⟨q, g, r, hline, hsolid, hg, t, ht, hends⟩ := h.stretch l
  refine ⟨l.clause ++ l.onwards q, t, ht, ?_, ?_⟩
  · rw [hline]
    refine l.ofText?_front hsolid hg hends fun ⟨htyped, hmis⟩ => hm ⟨htyped, ?_⟩
    -- The brace does not stand in `type`, so the clause is longer.
    have hbrace := l.spelled.brace hk
    have hlong {w : List Char} (hw : l.clause ++ w = "type".toList) : False := by
      have hmem : '{' ∈ "type".toList := hw ▸ List.mem_append_left w hbrace
      exact absurd hmem (by decide)
    rcases hmis with ⟨x, w, hc, hx⟩ | ⟨hc, -⟩
    · rcases List.append_eq_append_iff.1 hc with ⟨a, ha, -⟩ | ⟨a, ha, hrest⟩
      · exact (hlong ha.symm).elim
      · rcases a with _ | ⟨y, a⟩
        · exact (hlong (w := []) (by rw [ha, List.append_nil, List.append_nil])).elim
        · obtain ⟨rfl, -⟩ := List.cons.inj hrest
          exact .inl ⟨x, a, ha, hx⟩
    · exact (hlong hc).elim
  · obtain ⟨bs, hbs, hs⟩ := l.spelled
    exact Clause.ofClause_listed s.clause.covers_outside hbs hs fun h => absurd h hk

/-- A row whose first statement has nothing but a default binding is read with a clause that has a quote in it. -/
lemma Row.ofText?_default {s : Statement} {l : Layout s} {d : Name} (hd : s.clause = ⟨some d, none, none⟩)
    {ss : List Statement} {line : List Char} (h : Row ss line) :
    ∃ mark c t, ofText? (l.line ++ ';' :: line) = some (parts s.indent mark c t) ∧ Solid c ∧
      (∀ x ∈ c, x ∈ l.line ++ ';' :: line) ∧ '*' ∉ c.head? ∧ ∃ x ∈ c, ImportLine.isQuote x = true := by
  obtain ⟨q, g, r, hline, hsolid, hg, t, -, hends⟩ := h.stretch l
  have hclause : l.clause = d.text := by
    obtain ⟨bs, hbs, hs⟩ := l.spelled
    rw [hd] at hbs hs
    cases hbs
    obtain ⟨b, b', z, hb, hb', htext, hz⟩ := Listed.uncons hs
    obtain ⟨-, rfl⟩ := hz.resolve_right fun ⟨_, _, ht⟩ => by cases ht
    rw [← l.solid.trimList_eq, htext, List.append_nil]
    exact trimList_blanks hb hb' (solid_of_plain d.plain).head (solid_of_plain d.plain).getLast
  have hquote : ∃ x ∈ l.behindFrom, ImportLine.isQuote x = true := by
    obtain ⟨y, body, y', hy, -, -, -, hsource⟩ := s.quoted
    exact ⟨y, by simp [Layout.behindFrom, hsource], hy⟩
  obtain ⟨x, hx, hxq⟩ := hquote
  by_cases hmis : s.typed = false ∧ ImportLine.Misread (l.clause ++ l.onwards q) g
  · -- The default binding is `type`, and what is read as the clause starts with `from`.
    obtain ⟨htyped, hmis⟩ := hmis
    have hmark : l.mark = [] := by simp [Layout.mark, htyped]
    have hbefore := many_blank l.many_beforeFrom
    have hword : d.text = "type".toList := by
      have hrun := (span_run (p := isPlain) d.plain.2 (s := l.onwards q) (by
        obtain ⟨b, w, hb⟩ := List.exists_cons_of_ne_nil hbefore.1
        rw [Layout.onwards, hb]
        rintro y ⟨⟩
        simp [isPlain, hbefore.2 b (by simp [hb])])).1
      rw [← hrun, ← hclause]
      rcases hmis with ⟨y, w, hc, hy⟩ | ⟨hc, -⟩
      · rw [hc]
        exact (span_run plain_type.2 (by rintro c ⟨⟩; simp [isPlain, hy])).1
      · rw [hc]
        rfl
    have hfrom : Solid ("from".toList ++ (l.behindFrom ++ ';' :: q)) := by
      rw [Layout.onwards, ← List.append_assoc] at hsolid
      exact hsolid.drop rfl
    have htext : l.line ++ ';' :: line = s.indent ++ ("import".toList ++ (l.afterImport ++ ("type".toList ++
        (l.beforeFrom ++ (("from".toList ++ (l.behindFrom ++ ';' :: q)) ++ (g ++ ("from".toList ++ r))))))) := by
      rw [hline, Layout.front, hmark, hclause, hword, Layout.onwards]
      simp
    refine ⟨"type".toList ++ l.beforeFrom, "from".toList ++ (l.behindFrom ++ ';' :: q), t.tail, ?_, hfrom, fun y hy => ?_,
      fun h => absurd (Option.some.inj h) (by decide : ¬ 'f' = '*'), x, ?_, hxq⟩
    · rw [htext]
      exact ofText?_append s.blank (many_blank l.many_afterImport) (by rintro y ⟨⟩; rfl)
        (body?_marked hbefore hfrom hends)
    · rw [htext]
      simp only [List.mem_append] at hy ⊢
      tauto
    · simp [hx]
  · refine ⟨l.mark, _, t.tail, ?_, hsolid, fun y hy => ?_, ?_, x, ?_, hxq⟩
    · rw [hline]
      exact l.ofText?_front hsolid hg hends hmis
    · rw [hline]
      simp only [List.mem_append] at hy ⊢
      exact .inr (.inl hy)
    · obtain ⟨y, w, hy⟩ := List.exists_cons_of_ne_nil d.plain.1
      rw [hclause, hy]
      rintro ⟨⟩
      exact not_mem_of_plain d.plain.2 (c := '*') rfl (by simp [hy])
    · simp [Layout.onwards, hx]

/-! ### What a line imports -/

/-- A line of one statement imports the bindings of that statement from its source, and nothing else. -/
lemma imports_line_iff {s : Statement} {l : Layout s} (hm : ¬ l.Misread) {i : Binding × List Char} :
    Imports l.line i ↔ i.1 ∈ s.clause.bindings ∧ i.2 = s.source := by
  have hone {s : Statement} : i ∈ imports [s] ↔ i.1 ∈ s.clause.bindings ∧ i.2 = s.source := by
    obtain ⟨b, source⟩ := i
    simp only [imports, List.flatMap_cons, List.flatMap_nil, List.append_nil, List.mem_map, Prod.mk.injEq]
    exact ⟨fun ⟨_, hb, hname, hsource⟩ => ⟨hname ▸ hb, hsource.symm⟩, fun ⟨hb, h⟩ => ⟨b, hb, rfl, h.symm⟩⟩
  refine ⟨fun ⟨ss, hrow, hi⟩ => ?_, fun h => ⟨[s], .last l, hone.2 h⟩⟩
  have hcount := hrow.countP_isQuote
  rw [l.countP_isQuote] at hcount
  generalize hline : l.line = line at hrow
  cases hrow with
  | cons _ _ rest =>
    have hlen := List.length_pos_of_ne_nil rest.ne_nil
    simp only [List.length_cons] at hcount
    omega
  | @last s' l' =>
    have hread := l.ofText?_line hm
    rw [hline] at hread
    rw [hone] at hi
    by_cases hm' : l'.Misread
    · -- What is read of it starts as no clause does.
      obtain ⟨-, mark, c, hread', -, hhead⟩ := l'.ofText?_misread hm'
      rw [hread] at hread'
      simp only [parts, Option.some.injEq, ImportLine.mk.injEq] at hread'
      obtain ⟨-, -, rfl, -, -⟩ := hread'
      obtain ⟨x, r, hx, hblank⟩ := l.solid.first
      rcases hhead x (by rw [hx]; rfl) with h | rfl
      · rw [hblank] at h
        cases h
      · exact absurd (by rw [hx]; rfl) l.spelled.head_ne
    · have hread' := l'.ofText?_line hm'
      rw [hread] at hread'
      simp only [parts, Option.some.injEq, ImportLine.mk.injEq] at hread'
      obtain ⟨-, -, hclause, hsource, -⟩ := hread'
      have htexts : s.clause.texts = s'.clause.texts := by
        rw [← Clause.ofClause_spelled l.spelled, ← Clause.ofClause_spelled l'.spelled, hclause]
      rw [Clause.texts_injective htexts, hi.2]
      exact ⟨hi.1, hsource.symm⟩

/-! ### What is spared -/

/-- The statement with other bindings and the source of another one. -/
def Statement.mixed (s t : Statement) (k : Clause) : Statement where
  indent := s.indent
  typed := s.typed
  clause := k
  source := t.source
  semicolon := t.semicolon
  gap := s.gap
  quoted := t.quoted
  oneLine := t.oneLine

/-- A row whose first statement has braces and unused bindings becomes that statement without them, with the source of
the last one. What the line imports then is known. -/
lemma Row.imports_rewrite {s : Statement} {l : Layout s} (hm : ¬ l.Misread) (hk : s.clause.named ≠ none)
    {ss : List Statement} {line : List Char} (h : Row ss line) {unused : List Char → Bool}
    (hunused : ∃ b ∈ s.clause.bindings, b.isUnused unused = true) :
    (rewrite unused false (l.line ++ ';' :: line)).line ≠ some (l.line ++ ';' :: line) ∧
      ∀ i : Binding × List Char, i.1.isUnused unused = false →
        ((∃ out ∈ (rewrite unused false (l.line ++ ';' :: line)).line, Imports out i) ↔
          i.1 ∈ s.clause.bindings ∧ ss.getLast?.map Statement.source = some i.2) := by
  obtain ⟨c, t, ht, hread, hc⟩ := h.ofText?_row hm hk
  have hcount : s.clause.bindings.countP (·.isUnused unused) ≠ 0 := fun hzero => by
    obtain ⟨b, hb, hbu⟩ := hunused
    exact List.countP_eq_zero.1 hzero b hb hbu
  have hkept := s.clause.bindings_without unused
  have hmem {i : Binding × List Char} (hi : i.1.isUnused unused = false) :
      i.1 ∈ (s.clause.without unused).bindings ↔ i.1 ∈ s.clause.bindings := by
    rw [hkept, List.mem_filter]
    simp [hi]
  rw [rewrite_read hread hc, if_neg hcount, ht]
  by_cases hne : (s.clause.without unused).bindings = []
  · rw [if_pos hne]
    refine ⟨nofun, fun i hi => iff_of_false (fun ⟨_, hout, _⟩ => ?_) fun ⟨hb, _⟩ => ?_⟩
    · cases hout
    · have hnil := (hmem hi).2 hb
      rw [hne] at hnil
      exact absurd hnil List.not_mem_nil
  · have hnamed := s.clause.named_without_ne unused
    have hline : (Layout.singleSpaced (s := s.mixed t (s.clause.without unused)) l.many_afterMark hne hnamed).line =
        render (parts s.indent l.mark c t.tail) (s.clause.without unused).texts.clause :=
      Layout.line_singleSpaced (s := s.mixed t (s.clause.without unused)) _ hne hnamed c
    rw [if_neg hne, ← hline]
    refine ⟨fun hsame => ?_, fun i hi => ?_⟩
    · -- The row has the quotes of two sources at least.
      have hquotes := congrArg (List.countP ImportLine.isQuote) (Option.some.inj hsame)
      have hpos := List.length_pos_of_ne_nil h.ne_nil
      rw [Layout.countP_isQuote, List.countP_append, List.countP_cons, l.countP_isQuote, h.countP_isQuote] at hquotes
      omega
    · have hsource : (some t.source = some i.2) = (i.2 = t.source) := by rw [Option.some.injEq, @eq_comm _ i.2]
      simp only [Option.mem_some_iff, exists_eq_left', Option.map_some]
      rw [imports_line_iff (Layout.not_misread_singleSpaced _ hne hnamed), hsource]
      exact and_congr_left fun _ => hmem hi

/-- A row whose first statement has nothing but a default binding is left alone when no comma and no brace stands
on it: what is read as the default binding is no name. -/
lemma Row.rewrite_default {s : Statement} {l : Layout s} {d : Name} (hd : s.clause = ⟨some d, none, none⟩)
    {ss : List Statement} {line : List Char} (h : Row ss line) (hcomma : ',' ∉ l.line ++ ';' :: line)
    (hbrace : '{' ∉ l.line ++ ';' :: line) {unused : List Char → Bool}
    (hnames : ∀ n, unused n = true → Many isPlain n) :
    rewrite unused false (l.line ++ ';' :: line) = ⟨some (l.line ++ ';' :: line), 0⟩ := by
  obtain ⟨mark, c, t, hread, hsolid, hmem, hstar, x, hx, hquote⟩ := h.ofText?_default hd
  have hused : unused c = false := by
    rw [Bool.eq_false_iff]
    intro h
    have hplain := not_isQuote_of_isPlain ((hnames c h).2 x hx)
    rw [hquote] at hplain
    cases hplain
  obtain ⟨hhead, hbraced⟩ := span_run (p := fun x => x != '{') (g := c) (s := [])
    (fun y hy => bne_iff_ne.2 fun h => hbrace (h ▸ hmem y hy)) nofun
  rw [List.append_nil] at hhead hbraced
  have hparts : Bindings.ofClause c = ⟨some c, none, []⟩ := by
    obtain ⟨y, w, rfl⟩ := List.exists_cons_of_ne_nil hsolid.ne_nil
    have hy : y ≠ '*' := fun h => hstar (h ▸ rfl)
    simp only [Bindings.ofClause, hhead, hbraced, splitAtChar_eq_singleton fun h => hcomma (hmem _ h),
      List.foldl_cons, List.foldl_nil, Bindings.addPart, hsolid.trimList_eq]
    split
    · rename_i h
      cases h
    · rename_i h
      exact absurd (List.cons.inj h).1 hy
    · rfl
  rw [rewrite, hread]
  simp [parts, hparts, Bindings.without, Option.filter, hused, Bindings.toList]

/-- **A line with several statements goes with all of them** when the diagnostic is about a whole statement. When its
first statement has braces, it is left alone if none of the bindings of that statement is unused; else it keeps what
it should exactly if all that is used is a binding of the first statement from the source of the last one. When its
first statement has nothing but a default binding and no comma and no brace stands on it, it is left alone. -/
theorem spared_iff {s : Statement} (l : Layout s) {ss : List Statement} {line : List Char} (h : Row ss line)
    (unused : List Char → Bool) :
    (∀ front t back, s :: ss = front ++ t :: back →
      (Spared (l.line ++ ';' :: line) (rewrite unused true (l.line ++ ';' :: line)) (imports (front ++ back)) ↔
        imports (front ++ back) = [])) ∧
    (s.clause.named ≠ none → ¬ l.Misread →
      (Spared (l.line ++ ';' :: line) (rewrite unused false (l.line ++ ';' :: line))
          ((imports (s :: ss)).filter fun i => !i.1.isUnused unused) ↔
        (∀ b ∈ s.clause.bindings, b.isUnused unused = false) ∨
          ∀ i ∈ imports (s :: ss), i.1.isUnused unused = false →
            i.1 ∈ s.clause.bindings ∧ ss.getLast?.map Statement.source = some i.2)) ∧
    (∀ d, s.clause = ⟨some d, none, none⟩ → ',' ∉ l.line ++ ';' :: line → '{' ∉ l.line ++ ';' :: line →
      (∀ n, unused n = true → Many isPlain n) →
      rewrite unused false (l.line ++ ';' :: line) = ⟨some (l.line ++ ';' :: line), 0⟩) := by
  refine ⟨fun front t back _ => ?_, fun hk hm => ?_, fun d hd hcomma hbrace hnames => ?_⟩
  · rw [Spared, h.rewrite_all l unused]
    refine ⟨fun hspared => ?_, fun hnil => .inr fun i hi => absurd (hnil ▸ hi) List.not_mem_nil⟩
    rcases hspared with hsame | hall
    · cases hsame
    · refine List.eq_nil_iff_forall_not_mem.2 fun i hi => ?_
      obtain ⟨out, hout, -⟩ := hall i hi
      cases hout
  · by_cases hused : ∀ b ∈ s.clause.bindings, b.isUnused unused = false
    · obtain ⟨c, t, -, hread, hc⟩ := h.ofText?_row hm hk
      have hzero : s.clause.bindings.countP (·.isUnused unused) = 0 :=
        List.countP_eq_zero.2 fun b hb => by simp [hused b hb]
      refine iff_of_true (.inl ?_) (.inl hused)
      rw [rewrite_read hread hc, if_pos hzero]
    · obtain ⟨hother, himports⟩ := h.imports_rewrite hm hk (by simpa using hused)
      rw [Spared, or_iff_right hother, or_iff_right hused]
      refine forall_congr' fun i => ?_
      rw [List.mem_filter, and_imp]
      refine imp_congr_right fun _ => ?_
      simp only [Bool.not_eq_true']
      exact imp_congr_right fun hi => himports i hi
  · exact h.rewrite_default hd hcomma hbrace hnames

/-- The name of one letter. -/
def letter (c : Char) (hc : isPlain c = true) : Name := ⟨[c], List.cons_ne_nil _ _, by simpa using hc⟩

/-- A clause with one name in braces. -/
def bracedLetter (c : Char) (hc : isPlain c = true) : Clause := ⟨none, none, some [⟨false, letter c hc, none, nofun⟩]⟩

/-- A statement with a source of one letter. -/
def fromLetter (indent : List Char) (k : Clause) (c : Char) (semicolon : Bool) (hindent : ∀ x ∈ indent, isGap x = true)
    (hc : isPlain c = true) : Statement where
  indent := indent
  typed := false
  clause := k
  source := ['\'', c, '\'']
  semicolon := semicolon
  gap := hindent
  quoted := ⟨'\'', [c], '\'', rfl, rfl, List.cons_ne_nil _ _, by simpa using not_isQuote_of_isPlain hc, rfl⟩
  oneLine := by
    have hfeed : '\n' ∉ [c] := not_mem_of_plain (by simpa using hc) rfl
    simpa using hfeed

lemma many_space : Many isGap [' '] := ⟨List.cons_ne_nil _ _, by simp; rfl⟩

lemma gap_nil : ∀ c ∈ ([] : List Char), isGap c = true := List.forall_mem_nil _

/-- The letter `a` in braces, from `x`. -/
def aFromX : Statement := fromLetter [] (bracedLetter 'a' rfl) 'x' false gap_nil rfl

/-- The letter `b` in braces, from `y`, after another statement. -/
def bFromY : Statement := fromLetter [' '] (bracedLetter 'b' rfl) 'y' true many_space.2 rfl

/-- `import { a } from 'x'`. -/
def firstBraced : Layout aFromX := .singleSpaced many_space (List.cons_ne_nil _ _) nofun

/-- ` import { b } from 'y';`. -/
def secondBraced : Layout bFromY := .singleSpaced many_space (List.cons_ne_nil _ _) nofun

/-- `import a from 'x'`. -/
def firstDefault : Layout (fromLetter [] ⟨some (letter 'a' rfl), none, none⟩ 'x' false gap_nil rfl) :=
  .singleSpaced many_space (List.cons_ne_nil _ _) nofun

/-- ` import b from 'y';`. -/
def secondDefault : Layout (fromLetter [' '] ⟨some (letter 'b' rfl), none, none⟩ 'y' true many_space.2 rfl) :=
  .singleSpaced many_space (List.cons_ne_nil _ _) nofun

/-- Two statements with braces of which the second is not used, and two with default bindings of which none is. -/
theorem spared_iff_two :
    Row [bFromY] secondBraced.line ∧ aFromX.clause.named ≠ none ∧ ¬ firstBraced.Misread ∧
      Spared (firstBraced.line ++ ';' :: secondBraced.line)
        (rewrite (· == ['b']) false (firstBraced.line ++ ';' :: secondBraced.line))
        ((imports [aFromX, bFromY]).filter fun i => !i.1.isUnused (· == ['b'])) ∧
      rewrite [['a'], ['b']].contains false (firstDefault.line ++ ';' :: secondDefault.line) =
        ⟨some (firstDefault.line ++ ';' :: secondDefault.line), 0⟩ := by
  have hm : ¬ firstBraced.Misread := Layout.not_misread_singleSpaced _ _ _
  refine ⟨.last _, nofun, hm, ?_, ?_⟩
  · exact ((spared_iff firstBraced (.last secondBraced) (· == ['b'])).2.1 nofun hm).2 (.inl (by decide))
  · refine (spared_iff firstDefault (.last secondDefault) [['a'], ['b']].contains).2.2 _ rfl (by decide) (by decide) ?_
    intro n hn
    rcases List.mem_pair.1 (List.contains_iff_mem.1 hn) with rfl | rfl
    · exact (letter 'a' rfl).plain
    · exact (letter 'b' rfl).plain

/-- The whole line goes for the binding `a` of its first statement, with `b` of the second one, which is used. -/
theorem not_spared_second :
    firstBraced.line ++ ';' :: secondBraced.line = "import \x7b a \x7d from 'x'; import \x7b b \x7d from 'y';".toList ∧
      ¬ Spared (firstBraced.line ++ ';' :: secondBraced.line)
        (rewrite (· == ['a']) false (firstBraced.line ++ ';' :: secondBraced.line))
        ((imports [aFromX, bFromY]).filter fun i => !i.1.isUnused (· == ['a'])) := by
  have hgone : rewrite (· == ['a']) false (firstBraced.line ++ ';' :: secondBraced.line) = ⟨none, 1⟩ := by decide
  refine ⟨rfl, fun h => ?_⟩
  rw [hgone] at h
  rcases h with hsame | hall
  · cases hsame
  · obtain ⟨out, hout, -⟩ := hall _ (.head _)
    cases hout

end Ratchet.ImportLine
