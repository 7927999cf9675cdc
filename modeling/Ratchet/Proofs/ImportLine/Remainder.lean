import Ratchet.Proofs.ImportLine.Entry

/-!
What is left of a line.

A line whose statement loses bindings and stays is written anew from the parts that were read, so it has characters of
the line and those that stand between parts (`rewrite_text`), and stays one line where the line was.
-/

namespace Ratchet.ImportLine

open Text

/-! ### The parts of a line -/

lemma of_firstDown {α : Type} {f : Nat → Option α} {n : Nat} {x : α} (h : firstDown f n = some x) :
    ∃ k, f k = some x := by
  induction n with
  | zero => exact absurd h nofun
  | succ n ih =>
    rw [firstDown, Option.or_eq_some_iff] at h
    rcases h with h | ⟨-, h⟩
    · exact ⟨n + 1, h⟩
    · exact ih h

lemma Ends.sublist {s : List Char} {t : Tail} (h : Ends t s) : (t.source ++ t.semicolon).Sublist s := by
  obtain ⟨-, -, -, b, b', -, -, -, rfl⟩ := h
  rename_i g g'
  have hend : (t.source ++ t.semicolon).Sublist (t.source ++ (b ++ (t.semicolon ++ b'))) :=
    (List.Sublist.refl _).append ((List.sublist_append_left t.semicolon b').trans (List.sublist_append_right b _))
  exact hend.trans ((List.sublist_append_right g' _).trans
    ((List.sublist_append_right "from".toList _).trans (List.sublist_append_right g _)))

/-- What is read as a clause and an end stands in the text. -/
lemma sublist_of_clause? {s c : List Char} {t : Tail} (h : clause? s = some (c, t)) :
    (c ++ (t.source ++ t.semicolon)).Sublist s := by
  obtain ⟨-, z, rfl, hz⟩ := of_clause? h
  exact (List.Sublist.refl c).append hz.sublist

lemma sublist_of_body? {indent s : List Char} {l : ImportLine} (h : body? indent s = some l) :
    l.indent = indent ∧ (l.typeMark ++ (l.clause ++ (l.source ++ l.semicolon))).Sublist s := by
  rw [body?, Option.or_eq_some_iff] at h
  rcases h with h | ⟨-, h⟩
  · obtain ⟨r, hr, h⟩ := Option.bind_eq_some_iff.1 h
    obtain ⟨j, h⟩ := of_firstDown h
    obtain ⟨⟨c, t⟩, hc, rfl⟩ := Option.map_eq_some_iff.1 h
    rw [dropStart?_eq_some.1 hr]
    refine ⟨rfl, ?_⟩
    have hsub := (List.Sublist.refl ("type".toList ++ r.take j)).append (sublist_of_clause? hc)
    rwa [List.append_assoc "type".toList, List.append_assoc "type".toList, List.take_append_drop] at hsub
  · obtain ⟨⟨c, t⟩, hc, rfl⟩ := Option.map_eq_some_iff.1 h
    exact ⟨rfl, sublist_of_clause? hc⟩

/-- The parts of a statement stand on its line in their order. -/
lemma sublist_of_ofText? {line : List Char} {l : ImportLine} (h : ofText? line = some l) :
    (l.indent ++ (l.typeMark ++ (l.clause ++ (l.source ++ l.semicolon)))).Sublist line := by
  obtain ⟨r, hr, h⟩ := Option.bind_eq_some_iff.1 h
  obtain ⟨k, h⟩ := of_firstDown h
  obtain ⟨hindent, hbody⟩ := sublist_of_body? h
  have hrest : (r.drop k).Sublist (line.dropWhile isBlank) := by
    rw [dropStart?_eq_some.1 hr]
    exact (List.drop_sublist k r).trans (List.sublist_append_right _ r)
  have hline := (List.Sublist.refl (line.takeWhile isBlank)).append (hbody.trans hrest)
  rwa [List.takeWhile_append_dropWhile, ← hindent] at hline

/-! ### Bindings -/

lemma trimList_subset (s : List Char) : trimList s ⊆ s := by
  intro c hc
  rw [trimList, trimWhile, dropEndWhile, List.mem_reverse] at hc
  exact (List.dropWhile_sublist _).subset (List.mem_reverse.1 ((List.dropWhile_sublist _).subset hc))

/-- Bindings are written with characters of the clause that they are read from. -/
lemma subset_of_mem_ofClause {clause p : List Char} (h : p ∈ (Bindings.ofClause clause).toList) : p ⊆ clause := by
  have hhead : clause.takeWhile (· != '{') ⊆ clause := (List.takeWhile_sublist _).subset
  have hbraced : ((clause.dropWhile (· != '{')).drop 1).takeWhile (· != '}') ⊆ clause :=
    ((List.takeWhile_sublist _).trans ((List.drop_sublist 1 _).trans (List.dropWhile_sublist _))).subset
  -- Every part before the braces that is a binding is one of the pieces between commas.
  refine List.foldlRecOn (motive := fun b => ∀ p ∈ b.toList, p ⊆ clause)
    (splitAtChar ',' (clause.takeWhile (· != '{'))) Bindings.addPart (fun p hp => ?_) (fun b hb part hpart p hp => ?_) p h
  · have hp : p ∈ Bindings.items (((clause.dropWhile (· != '{')).drop 1).takeWhile (· != '}')) := by
      simpa [Bindings.toList] using hp
    obtain ⟨q, hq, rfl⟩ := List.mem_map.1 (List.mem_filter.1 hp).1
    exact fun c hc => hbraced ((of_mem_splitAtChar hq).2 c (trimList_subset q hc))
  · have hpart : trimList part ⊆ clause := fun c hc => hhead ((of_mem_splitAtChar hpart).2 c (trimList_subset part hc))
    simp only [Bindings.toList, List.mem_append, Option.mem_toList] at hb hp
    rw [Bindings.addPart] at hp
    split at hp
    · exact hb p hp
    · rename_i r hr
      rcases hp with (hp | hp) | hp
      · exact hb p (.inl (.inl hp))
      · rw [← Option.some.inj hp, ← hr]
        exact hpart
      · exact hb p (.inr hp)
    · rcases hp with (hp | hp) | hp
      · rw [← Option.some.inj hp]
        exact hpart
      · exact hb p (.inl (.inr hp))
      · exact hb p (.inr hp)

/-- The clause of bindings has their characters, commas, spaces and braces. -/
lemma clause_subset {b : Bindings} {t : List Char} (h : ∀ p ∈ b.toList, p ⊆ t) (ht : ", \x7b\x7d".toList ⊆ t) :
    b.clause ⊆ t := by
  have hsep : ", ".toList ⊆ t := List.Subset.trans (by decide) ht
  simp only [Bindings.toList, List.mem_append, Option.mem_toList] at h
  intro c hc
  rcases mem_joinWith hc with hc | ⟨p, hp, hc⟩
  · exact hsep hc
  · simp only [List.mem_append, Option.mem_toList] at hp
    rcases hp with hp | hp
    · exact h p (.inl hp) hc
    · -- The names in braces.
      split at hp
      · exact absurd hp List.not_mem_nil
      · rw [List.mem_singleton.1 hp] at hc
        simp only [List.mem_append] at hc
        rcases hc with (hc | hc) | hc
        · exact List.Subset.trans (by decide) ht hc
        · rcases mem_joinWith hc with hc | ⟨p, hp, hc⟩
          · exact hsep hc
          · exact h p (.inr hp) hc
        · exact List.Subset.trans (by decide) ht hc

lemma mem_of_mem_without {unused : List Char → Bool} {b : Bindings} {p : List Char}
    (h : p ∈ (b.without unused).toList) : p ∈ b.toList := by
  simp only [Bindings.toList, Bindings.without, List.mem_append, Option.mem_toList,
    Option.filter_eq_some_iff, List.mem_filter] at h ⊢
  exact h.imp (Or.imp And.left And.left) And.left

/-! ### Lines written anew -/

/-- What stands between the parts of a statement that is written anew. -/
def filling : List Char := "import from, \x7b\x7d".toList

lemma render_subset (l : ImportLine) (clause : List Char) :
    render l clause ⊆ l.indent ++ (l.typeMark ++ (l.source ++ l.semicolon)) ++ clause ++ filling := by
  intro c hc
  have hword : ∀ word : List Char, word ⊆ filling → c ∈ word →
      c ∈ l.indent ++ (l.typeMark ++ (l.source ++ l.semicolon)) ++ clause ++ filling := fun word hw hc =>
    List.mem_append_right _ (hw hc)
  simp only [render, List.mem_append] at hc
  rcases hc with (((((hc | hc) | hc) | hc) | hc) | hc) | hc
  · simp [hc]
  · exact hword _ (by decide) hc
  · simp [hc]
  · simp [hc]
  · exact hword _ (by decide) hc
  · simp [hc]
  · simp [hc]

/-- What becomes of a line: it stays as it is, it goes, or its statement is written anew. -/
lemma rewrite_cases (unused : List Char → Bool) (dropAll : Bool) (line : List Char) :
    rewrite unused dropAll line = ⟨some line, 0⟩ ∨ (rewrite unused dropAll line).line = none ∨
      dropAll = false ∧ ∃ l, ofText? line = some l ∧ (rewrite unused dropAll line).line =
        some (l.render ((Bindings.ofClause l.clause).without unused).clause) := by
  unfold rewrite
  split
  · exact .inl rfl
  · rename_i l hl
    dsimp only
    split_ifs with hdrop hzero hempty
    · exact .inr (.inl rfl)
    · exact .inl rfl
    · exact .inr (.inl rfl)
    · exact .inr (.inr ⟨by simpa using hdrop, l, hl, rfl⟩)

/-- A line that is not there as it was is written with its own characters and those between the parts. -/
lemma rewrite_text {unused : List Char → Bool} {dropAll : Bool} {line text : List Char}
    (h : (rewrite unused dropAll line).line = some text) : text = line ∨ text ≠ [] ∧ text ⊆ line ++ filling := by
  rcases rewrite_cases unused dropAll line with hsame | hnone | ⟨-, l, hl, hnew⟩
  · rw [hsame] at h
    exact .inl (Option.some.inj h).symm
  · exact absurd (hnone.symm.trans h) nofun
  · obtain rfl := Option.some.inj (hnew.symm.trans h)
    have hparts := (sublist_of_ofText? hl).subset
    have hclause : ((Bindings.ofClause l.clause).without unused).clause ⊆ line ++ filling := by
      refine clause_subset (fun p hp c hc => ?_) (List.Subset.trans (by decide) (List.subset_append_right line filling))
      have hmem := subset_of_mem_ofClause (mem_of_mem_without hp) hc
      exact List.mem_append_left _ (hparts (by simp [hmem]))
    have hothers : l.indent ++ (l.typeMark ++ (l.source ++ l.semicolon)) ⊆ line ++ filling := fun c hc =>
      List.mem_append_left _ (hparts (by
        simp only [List.mem_append] at hc ⊢
        exact hc.imp_right (Or.imp_right .inr)))
    refine .inr ⟨by simp [render], List.Subset.trans (render_subset l _) ?_⟩
    exact List.append_subset.2 ⟨List.append_subset.2 ⟨hothers, hclause⟩, List.subset_append_right _ _⟩

end Ratchet.ImportLine
