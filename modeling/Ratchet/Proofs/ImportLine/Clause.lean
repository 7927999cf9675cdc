import Ratchet.Proofs.ImportLine.Entry

/-!
The clause of an import statement.

A `Clause` has a default binding, a namespace and a list of entries in braces, each of which may be missing. `Spelled`
says how it may be written: its parts with commas between them and blanks around them. What is written so is read as
the bindings of the clause. A default binding by the name `type` has a section of its own, since a blank after it
looks as if the word were the mark of the statement.
-/

namespace Ratchet.ImportLine

open Text

/-! ### Clauses -/

/-- Texts with commas between them and blanks around them. -/
inductive Listed : List (List Char) → List Char → Prop
  | last {b s e : List Char} (before : ∀ c ∈ b, isBlank c = true) (after : ∀ c ∈ e, isBlank c = true) :
    Listed [s] (b ++ (s ++ e))
  | cons {b s e t : List Char} {ss : List (List Char)} (before : ∀ c ∈ b, isBlank c = true)
    (after : ∀ c ∈ e, isBlank c = true) (rest : Listed ss t) : Listed (s :: ss) (b ++ (s ++ (e ++ ',' :: t)))

/-- The first text of a list, and what follows it. -/
lemma Listed.uncons {s t : List Char} {ss : List (List Char)} (h : Listed (s :: ss) t) :
    ∃ b b' z, (∀ c ∈ b, isBlank c = true) ∧ (∀ c ∈ b', isBlank c = true) ∧ t = b ++ (s ++ (b' ++ z)) ∧
      ((ss = [] ∧ z = []) ∨ ∃ t', z = ',' :: t' ∧ Listed ss t') := by
  cases h with
  | @last b _ b' hb hb' => exact ⟨b, b', [], hb, hb', by rw [List.append_nil], .inl ⟨rfl, rfl⟩⟩
  | @cons b _ b' t' _ hb hb' hrest => exact ⟨b, b', ',' :: t', hb, hb', rfl, .inr ⟨t', rfl, hrest⟩⟩

/-- The last text of a list, and what stands before it. -/
lemma Listed.last_apart {s t : List Char} {ss : List (List Char)} (h : Listed (ss ++ [s]) t) :
    ∃ u b, t = u ++ (s ++ b) ∧ Listed (ss ++ [[]]) u := by
  induction ss generalizing t with
  | nil =>
    obtain ⟨b, b', z, hb, -, rfl, hz⟩ := Listed.uncons h
    obtain ⟨-, rfl⟩ := hz.resolve_right fun ⟨t, _, ht⟩ => by cases ht
    exact ⟨b, b', by rw [List.append_nil], by simpa using Listed.last (s := []) (e := []) hb nofun⟩
  | cons r ss ih =>
    obtain ⟨b, b', z, hb, hb', rfl, hz⟩ := Listed.uncons h
    obtain ⟨t, rfl, ht⟩ := hz.resolve_left fun ⟨h, _⟩ => by simp at h
    obtain ⟨u, e, rfl, hu⟩ := ih ht
    exact ⟨b ++ (r ++ (b' ++ ',' :: u)), e, by simp, .cons hb hb' hu⟩

lemma Listed.pad_front {t b : List Char} {ss : List (List Char)} (h : Listed ss t) (hb : ∀ c ∈ b, isBlank c = true) :
    Listed ss (b ++ t) := by
  have blanks {b' : List Char} (hb' : ∀ c ∈ b', isBlank c = true) : ∀ c ∈ b ++ b', isBlank c = true :=
    fun c hc => (List.mem_append.1 hc).elim (hb c) (hb' c)
  cases h with
  | last before after =>
    rw [← List.append_assoc]
    exact .last (blanks before) after
  | cons before after rest =>
    rw [← List.append_assoc]
    exact .cons (blanks before) after rest

lemma Listed.pad_back {t b : List Char} {ss : List (List Char)} (h : Listed ss t) (hb : ∀ c ∈ b, isBlank c = true) :
    Listed ss (t ++ b) := by
  induction h with
  | last before after =>
    rw [List.append_assoc, List.append_assoc]
    exact .last before fun c hc => (List.mem_append.1 hc).elim (after c) (hb c)
  | cons before after _ ih =>
    rw [List.append_assoc, List.append_assoc, List.append_assoc, List.cons_append]
    exact .cons before after ih

/-- A comma and a space between the texts are one way to write a list. -/
lemma listed_joinWith {ss : List (List Char)} (hne : ss ≠ []) : Listed ss (joinWith ", ".toList ss) := by
  have nothing : ∀ c ∈ ([] : List Char), isBlank c = true := nofun
  induction ss with
  | nil => exact absurd rfl hne
  | cons s ss ih =>
    rcases ss with _ | ⟨r, ss⟩
    · simpa [joinWith] using Listed.last (s := s) nothing nothing
    · have hrest := (ih (List.cons_ne_nil r ss)).pad_front (b := [' ']) (by simp; rfl)
      simpa [joinWith] using Listed.cons (s := s) nothing nothing hrest

/-- What can stand between commas: nothing, or a text without commas that is not trimmed. -/
structure Item (s : List Char) : Prop where
  first : ∀ c ∈ s.head?, isBlank c = false
  last : ∀ c ∈ s.getLast?, isBlank c = false
  comma : ',' ∉ s

lemma Item.nil : Item [] := ⟨nofun, nofun, List.not_mem_nil⟩

lemma Solid.item {s : List Char} (h : Solid s) (hcomma : ',' ∉ s) : Item s := ⟨h.head, h.getLast, hcomma⟩

lemma Item.trimList_eq {s : List Char} (h : Item s) : trimList s = s := by
  simpa using trimList_blanks (b := []) (e := []) nofun nofun h.first h.last

/-- The texts of a list are found between its commas. -/
lemma Listed.split {ss : List (List Char)} {t : List Char} (h : Listed ss t) (hs : ∀ s ∈ ss, Item s) :
    (splitAtChar ',' t).map trimList = ss := by
  have blanks {b : List Char} (hb : ∀ c ∈ b, isBlank c = true) : ',' ∉ b := fun hc => absurd (hb ',' hc) (by decide)
  induction h with
  | @last b s b' hb hb' =>
    have hitem := hs s (by simp)
    have hcomma : ',' ∉ b ++ (s ++ b') := by simp [blanks hb, blanks hb', hitem.comma]
    rw [splitAtChar_eq_singleton hcomma, List.map_singleton, trimList_blanks hb hb' hitem.first hitem.last]
  | @cons b s b' t ss hb hb' _ ih =>
    have hitem := hs s (by simp)
    have hcomma : ',' ∉ b ++ (s ++ b') := by simp [blanks hb, blanks hb', hitem.comma]
    have htext : b ++ (s ++ (b' ++ ',' :: t)) = (b ++ (s ++ b')) ++ ',' :: t := by simp
    rw [htext, splitAtChar_append, splitAtChar_eq_singleton hcomma, List.map_append, List.map_singleton,
      trimList_blanks hb hb' hitem.first hitem.last, ih fun r hr => hs r (List.mem_cons_of_mem s hr)]
    rfl

lemma Listed.mem {ss : List (List Char)} {t : List Char} (h : Listed ss t) {c : Char} (hc : c ∈ t) :
    isBlank c = true ∨ c = ',' ∨ ∃ s ∈ ss, c ∈ s := by
  induction h with
  | @last b s b' hb hb' =>
    rcases List.mem_append.1 hc with hc | hc
    · exact .inl (hb c hc)
    · rcases List.mem_append.1 hc with hc | hc
      · exact .inr (.inr ⟨s, by simp, hc⟩)
      · exact .inl (hb' c hc)
  | @cons b s b' t ss hb hb' _ ih =>
    rcases List.mem_append.1 hc with hc | hc
    · exact .inl (hb c hc)
    · rcases List.mem_append.1 hc with hc | hc
      · exact .inr (.inr ⟨s, by simp, hc⟩)
      · rcases List.mem_append.1 hc with hc | hc
        · exact .inl (hb' c hc)
        · rcases List.mem_cons.1 hc with rfl | hc
          · exact .inr (.inl rfl)
          · rcases ih hc with h | h | ⟨r, hr, hcr⟩
            · exact .inl h
            · exact .inr (.inl h)
            · exact .inr (.inr ⟨r, List.mem_cons_of_mem s hr, hcr⟩)

/-- The entries between two braces: with commas between them, and there may be one after the last. -/
inductive Inside (es : List Entry) (t : List Char) : Prop
  | plain (list : Listed (es.map Entry.text) t)
  | trailing (list : Listed (es.map Entry.text ++ [[]]) t)

lemma item_entry (e : Entry) : Item e.text :=
  e.solid_text.item fun h => by rcases Entry.mem_text h with h | h <;> simp [isPlain] at h

lemma Inside.items {es : List Entry} {t : List Char} (h : Inside es t) : Bindings.items t = es.map Entry.text := by
  have hitem : ∀ s ∈ es.map Entry.text, Item s := by
    rintro s hs
    obtain ⟨e, -, rfl⟩ := List.mem_map.1 hs
    exact item_entry e
  have hkept : (es.map Entry.text).filter (fun s => !s.isEmpty) = es.map Entry.text := by
    refine List.filter_eq_self.2 fun s hs => ?_
    obtain ⟨e, -, rfl⟩ := List.mem_map.1 hs
    simp [e.solid_text.ne_nil]
  rw [Bindings.items]
  rcases h with h | h
  · rw [h.split hitem, hkept]
  · rw [h.split fun s hs => ?_, List.filter_append, hkept]
    · simp
    · rcases List.mem_append.1 hs with hs | hs
      · exact hitem s hs
      · rw [List.mem_singleton.1 hs]
        exact Item.nil

lemma Inside.mem {es : List Entry} {t : List Char} (h : Inside es t) {c : Char} (hc : c ∈ t) :
    isBlank c = true ∨ c = ',' ∨ isPlain c = true := by
  have hentry : ∀ s ∈ es.map Entry.text, c ∈ s → isBlank c = true ∨ isPlain c = true := by
    rintro s hs hcs
    obtain ⟨e, -, rfl⟩ := List.mem_map.1 hs
    rcases Entry.mem_text hcs with rfl | h
    · exact .inl rfl
    · exact .inr h
  rcases h with h | h <;> rcases h.mem hc with h | h | ⟨s, hs, hcs⟩
  · exact .inl h
  · exact .inr (.inl h)
  · exact (hentry s hs hcs).imp_right .inr
  · exact .inl h
  · exact .inr (.inl h)
  · rcases List.mem_append.1 hs with hs | hs
    · exact (hentry s hs hcs).imp_right .inr
    · rw [List.mem_singleton.1 hs] at hcs
      exact absurd hcs List.not_mem_nil

/-- What a statement imports. Braces may be there without an entry. -/
structure Clause where
  default : Option Name
  «namespace» : Option Name
  named : Option (List Entry)

/-- One of the names that a statement imports. -/
inductive Binding
  | default (n : Name)
  | namespace (n : Name)
  | named (e : Entry)

namespace Binding

/-- The name by which the file knows a binding. -/
def localName : Binding → Name
  | .default n => n
  | .namespace n => n
  | .named e => e.localName

/-- Whether the name of a binding is among those that are unused. -/
def isUnused (unused : List Char → Bool) (b : Binding) : Bool := unused b.localName.text

end Binding

namespace Clause

/-- What stands outside the braces. -/
def outside (k : Clause) : List (List Char) := (k.default.map Name.text).toList ++ (k.namespace.map star).toList

/-- The bindings in the order of the statement. -/
def bindings (k : Clause) : List Binding :=
  k.default.toList.map .default ++ k.namespace.toList.map .namespace ++ (k.named.getD []).map .named

/-- The bindings as texts. -/
def texts (k : Clause) : Bindings :=
  ⟨k.default.map Name.text, k.namespace.map star, (k.named.getD []).map Entry.text⟩

/-- How the braces may be written, if they are there. -/
inductive Braces : Option (List Entry) → List (List Char) → Prop
  | absent : Braces none []
  | present {es : List Entry} {t : List Char} (inside : Inside es t) : Braces (some es) ['{' :: (t ++ ['}'])]

/-- How a clause may be written: with commas between its parts. -/
def Spelled (k : Clause) (s : List Char) : Prop := ∃ bs, Braces k.named bs ∧ Listed (k.outside ++ bs) s

lemma mem_outside {k : Clause} {s : List Char} (h : s ∈ k.outside) :
    (∃ n : Name, s = n.text) ∨ ∃ n : Name, s = star n := by
  rcases List.mem_append.1 h with h | h <;> obtain ⟨n, -, rfl⟩ := Option.map_eq_some_iff.1 (Option.mem_toList.1 h)
  · exact .inl ⟨n, rfl⟩
  · exact .inr ⟨n, rfl⟩

/-- A character that no name has stands in what is outside the braces only if it is one of those of a namespace. -/
lemma not_mem_outside {k : Clause} {s : List Char} (h : s ∈ k.outside) {c : Char} (hc : isPlain c = false)
    (hstar : c ∉ "* as ".toList) : c ∉ s := by
  rcases mem_outside h with ⟨n, rfl⟩ | ⟨n, rfl⟩
  · exact not_mem_of_plain n.plain.2 hc
  · rw [star, aliased_some, show ['*'] ++ (" as ".toList ++ n.text) = "* as ".toList ++ n.text from rfl]
    exact fun hmem => (List.mem_append.1 hmem).elim hstar (not_mem_of_plain n.plain.2 hc)

/-- What is outside the braces, with nothing between some of the commas. -/
def Covers (k : Clause) (ps : List (List Char)) : Prop := ps.filter (fun p => !p.isEmpty) = k.outside

lemma solid_outside (k : Clause) : ∀ s ∈ k.outside, Solid s := by
  intro s hs
  rcases mem_outside hs with ⟨n, rfl⟩ | ⟨n, rfl⟩
  · exact solid_of_plain n.plain
  · exact solid_star n

lemma covers_outside (k : Clause) : k.Covers k.outside :=
  List.filter_eq_self.2 fun s hs => by simp [(k.solid_outside s hs).ne_nil]

lemma covers_cons {k : Clause} {ps : List (List Char)} (h : k.Covers ps) : k.Covers ([] :: ps) := h

lemma covers_concat {k : Clause} {ps : List (List Char)} (h : k.Covers ps) : k.Covers (ps ++ [[]]) := by
  rw [Covers, List.filter_append, h]
  simp

lemma Covers.mem {k : Clause} {ps : List (List Char)} (h : k.Covers ps) {s : List Char} (hs : s ∈ ps) :
    s = [] ∨ s ∈ k.outside := by
  by_cases hnil : s = []
  · exact .inl hnil
  · exact .inr (h ▸ List.mem_filter.2 ⟨hs, by simp [hnil]⟩)

lemma Covers.item {k : Clause} {ps : List (List Char)} (h : k.Covers ps) : ∀ s ∈ ps, Item s := by
  intro s hs
  rcases h.mem hs with rfl | hs
  · exact Item.nil
  · exact (k.solid_outside s hs).item (not_mem_outside hs rfl (by decide))

/-- Outside the braces there is no brace. -/
lemma Covers.brace {k : Clause} {ps : List (List Char)} (h : k.Covers ps) {u : List Char} (hu : Listed ps u) :
    '{' ∉ u := by
  intro hmem
  rcases hu.mem hmem with hc | hc | ⟨s, hs, hc⟩
  · exact absurd hc (by decide)
  · exact absurd hc (by decide)
  · rcases h.mem hs with rfl | hs
    · exact absurd hc List.not_mem_nil
    · exact not_mem_outside hs rfl (by decide) hc

end Clause

namespace Bindings

/-- A part of a clause counts as what it is when it is trimmed. -/
lemma foldl_addPart {parts ps : List (List Char)} (h : parts.map trimList = ps) (hps : ∀ p ∈ ps, Item p)
    (b : Bindings) : parts.foldl addPart b = ps.foldl addPart b := by
  induction parts generalizing ps b with
  | nil => rw [← h, List.map_nil]
  | cons part parts ih =>
    subst h
    have hpart : addPart b (trimList part) = addPart b part := by
      rw [addPart, addPart, (hps (trimList part) (by simp)).trimList_eq]
    rw [List.map_cons, List.foldl_cons, List.foldl_cons, hpart]
    exact ih rfl (fun p hp => hps p (by simp [hp])) _

lemma addPart_nil (b : Bindings) : addPart b [] = b := rfl

lemma addPart_name (b : Bindings) (n : Name) : addPart b n.text = { b with default := some n.text } := by
  obtain ⟨c, r, hn⟩ := List.exists_cons_of_ne_nil n.plain.1
  have hstar : c ≠ '*' := by
    rintro rfl
    exact not_mem_of_plain n.plain.2 (c := '*') rfl (by simp [hn])
  rw [addPart, (solid_of_plain n.plain).trimList_eq, hn]
  split
  · rename_i h
    cases h
  · rename_i h
    exact absurd (List.cons.inj h).1 hstar
  · rfl

lemma addPart_star (b : Bindings) (n : Name) : addPart b (star n) = { b with «namespace» := some (star n) } := by
  rw [addPart, (solid_star n).trimList_eq, star, aliased_some]
  rfl

end Bindings

namespace Clause

lemma foldl_covers {k : Clause} {ps : List (List Char)} (h : k.Covers ps) (named : List (List Char)) :
    ps.foldl Bindings.addPart ⟨none, none, named⟩ = ⟨k.default.map Name.text, k.namespace.map star, named⟩ := by
  have hnil (b : Bindings) : ps.foldl Bindings.addPart b = (ps.filter fun p => !p.isEmpty).foldl Bindings.addPart b := by
    clear h
    induction ps generalizing b with
    | nil => rfl
    | cons p ps ih =>
      cases p with
      | nil => exact ih b
      | cons c p => exact ih _
  rw [hnil, h]
  rcases hd : k.default with _ | d <;> rcases hn : k.namespace with _ | n <;>
    simp [outside, hd, hn, Bindings.addPart_name, Bindings.addPart_star]

/-- **A clause is read as it is written.** When it has braces, what follows them does not count. -/
theorem ofClause_listed {k : Clause} {ps bs : List (List Char)} {s rest : List Char} (hps : k.Covers ps)
    (hbs : Braces k.named bs) (hs : Listed (ps ++ bs) s) (hrest : k.named = none → rest = []) :
    Bindings.ofClause (s ++ rest) = k.texts := by
  generalize hk : k.named = named at hbs hrest
  cases hbs with
  | absent =>
    rw [List.append_nil] at hs
    obtain ⟨hhead, hbraced⟩ := span_run (p := fun c => c != '{') (g := s) (s := [])
      (fun c hc => bne_iff_ne.2 fun h => hps.brace hs (h ▸ hc)) nofun
    rw [hrest rfl, List.append_nil]
    rw [List.append_nil] at hhead hbraced
    simp only [Bindings.ofClause, hhead, hbraced]
    rw [Bindings.foldl_addPart (hs.split hps.item) hps.item, foldl_covers hps, texts, hk]
    rfl
  | @present es t ht =>
    obtain ⟨u, b, rfl, hu⟩ := hs.last_apart
    have hcovers := covers_concat hps
    have hclose : '}' ∉ t := fun h => by
      rcases ht.mem h with h | h | h <;> exact absurd h (by decide)
    have hline : u ++ ('{' :: (t ++ ['}']) ++ b) ++ rest = u ++ '{' :: (t ++ '}' :: (b ++ rest)) := by simp
    obtain ⟨hhead, hbraced⟩ := span_run (p := fun c => c != '{') (g := u) (s := '{' :: (t ++ '}' :: (b ++ rest)))
      (fun c hc => bne_iff_ne.2 fun h => hcovers.brace hu (h ▸ hc)) (by rintro c ⟨⟩; rfl)
    have hinside := (span_run (p := fun c => c != '}') (g := t) (s := '}' :: (b ++ rest))
      (fun c hc => bne_iff_ne.2 fun h => hclose (h ▸ hc)) (by rintro c ⟨⟩; rfl)).1
    rw [hline]
    simp only [Bindings.ofClause, hhead, hbraced, List.drop_succ_cons, List.drop_zero, hinside, ht.items]
    rw [Bindings.foldl_addPart (hu.split hcovers.item) hcovers.item, foldl_covers hcovers, texts, hk]
    rfl

theorem ofClause_spelled {k : Clause} {s : List Char} (h : k.Spelled s) : Bindings.ofClause s = k.texts := by
  obtain ⟨bs, hbs, hs⟩ := h
  have hread : Bindings.ofClause (s ++ []) = k.texts := ofClause_listed k.covers_outside hbs hs fun _ => rfl
  rwa [List.append_nil] at hread

lemma texts_injective {k k' : Clause} (h : k.texts = k'.texts) : k.bindings = k'.bindings := by
  simp only [texts, Bindings.mk.injEq] at h
  obtain ⟨hdefault, hnamespace, hnamed⟩ := h
  rw [bindings, bindings, Option.map_injective (fun _ _ => Name.ext) hdefault,
    Option.map_injective (fun _ _ => star_injective) hnamespace,
    List.map_injective_iff.2 (fun _ _ => Entry.text_injective) hnamed]

/-- No quote stands in a clause. -/
lemma Spelled.isQuote {k : Clause} {s : List Char} (h : k.Spelled s) {c : Char} (hc : c ∈ s) : isQuote c = false := by
  obtain ⟨bs, hbs, hs⟩ := h
  rcases hs.mem hc with hc | rfl | ⟨p, hp, hc⟩
  · exact isQuote_of_isBlank hc
  · rfl
  · rcases List.mem_append.1 hp with hp | hp
    · rw [Bool.eq_false_iff]
      intro hq
      have hplain : isPlain c = false := Bool.eq_false_iff.2 fun h => by simp [not_isQuote_of_isPlain h] at hq
      refine not_mem_outside hp hplain (fun hstar => ?_) hc
      have hall : ("* as ".toList).all (fun c => !ImportLine.isQuote c) = true := by decide
      simpa [hq] using List.all_eq_true.1 hall c hstar
    · generalize k.named = named at hbs
      cases hbs with
      | absent => exact absurd hp List.not_mem_nil
      | present inside =>
        rw [List.mem_singleton.1 hp] at hc
        rcases List.mem_cons.1 hc with rfl | hc
        · rfl
        · rcases List.mem_append.1 hc with hc | hc
          · rcases inside.mem hc with hc | rfl | hc
            · exact isQuote_of_isBlank hc
            · rfl
            · exact not_isQuote_of_isPlain hc
          · rw [List.mem_singleton.1 hc]
            rfl

lemma Spelled.brace {k : Clause} {s : List Char} (h : k.Spelled s) (hk : k.named ≠ none) : '{' ∈ s := by
  obtain ⟨bs, hbs, hs⟩ := h
  generalize k.named = named at hbs hk
  cases hbs with
  | absent => exact absurd rfl hk
  | present inside =>
    obtain ⟨u, b, rfl, -⟩ := hs.last_apart
    simp

/-- A clause does not start with a comma. -/
lemma Spelled.head_ne {k : Clause} {s : List Char} (h : k.Spelled s) : ',' ∉ s.head? := by
  obtain ⟨bs, hbs, hlist⟩ := h
  have hpart : ∀ p ∈ k.outside ++ bs, ∃ x r, p = x :: r ∧ x ≠ ',' := by
    intro p hp
    rcases List.mem_append.1 hp with hp | hp
    · obtain ⟨x, r, hx, -⟩ := (k.solid_outside p hp).first
      refine ⟨x, r, hx, fun h => not_mem_outside hp (c := ',') rfl (by decide) ?_⟩
      rw [hx, h]
      exact List.mem_cons_self
    · generalize k.named = named at hbs
      cases hbs with
      | absent => exact absurd hp List.not_mem_nil
      | present inside => exact ⟨_, _, List.mem_singleton.1 hp, by decide⟩
  rcases hps : k.outside ++ bs with _ | ⟨p, ps⟩
  · rw [hps] at hlist
    cases hlist
  · rw [hps] at hlist
    obtain ⟨x, r, rfl, hx⟩ := hpart p (by simp [hps])
    obtain ⟨b, b', z, hb, -, rfl, -⟩ := hlist.uncons
    rcases b with _ | ⟨y, b⟩
    · exact fun hcomma => hx (Option.some.inj hcomma)
    · rintro ⟨⟩
      exact absurd (hb ',' List.mem_cons_self) (by decide)

/-! ### A default binding by the name `type` -/

/-- The clause without its default binding. -/
def undefault (k : Clause) : Clause := { k with default := none }

lemma outside_default {k : Clause} {d : Name} (h : k.default = some d) : k.outside = d.text :: k.undefault.outside := by
  simp [outside, undefault, h]

/-- A clause that starts with a word starts with its default binding. -/
lemma Spelled.starts {k : Clause} {c : Char} {s : List Char} (h : k.Spelled (c :: s)) (hc : isPlain c = true) :
    ∃ d bs b z, k.default = some d ∧ Braces k.named bs ∧ (∀ x ∈ b, isBlank x = true) ∧ c :: s = d.text ++ (b ++ z) ∧
      (z = [] ∨ ∃ t, z = ',' :: t ∧ Listed (k.undefault.outside ++ bs) t) := by
  obtain ⟨bs, hbs, hs⟩ := h
  -- What stands first starts where the text does.
  have first {p : List Char} {ps : List (List Char)} (hps : k.outside ++ bs = p :: ps) (hp : p ≠ []) :
      ∃ b z, (∀ x ∈ b, isBlank x = true) ∧ c :: s = p ++ (b ++ z) ∧ (z = [] ∨ ∃ t, z = ',' :: t ∧ Listed ps t) := by
    rw [hps] at hs
    obtain ⟨b, b', z, hb, hb', hline, hz⟩ := hs.uncons
    rcases b with _ | ⟨y, b⟩
    · exact ⟨b', z, hb', hline, hz.imp_left And.right⟩
    · have hy := hb y List.mem_cons_self
      rw [← (List.cons.inj hline).1, not_isBlank_of_isPlain hc] at hy
      cases hy
  rcases hd : k.default with _ | d
  · have plain {x : Char} {r : List Char} {ps : List (List Char)} (hps : k.outside ++ bs = (x :: r) :: ps) :
        isPlain x = true := by
      obtain ⟨b, z, -, hline, -⟩ := first hps (List.cons_ne_nil x r)
      rwa [← (List.cons.inj hline).1]
    rcases hn : k.namespace with _ | n
    · have hnil : k.outside = [] := by simp [outside, hd, hn]
      generalize k.named = named at hbs
      cases hbs with
      | absent =>
        rw [hnil] at hs
        cases hs
      | present inside => exact absurd (plain (by rw [hnil]; rfl)) (by decide)
    · exact absurd (plain (by rw [outside, hd, hn]; rfl)) (by decide : ¬ isPlain '*' = true)
  · obtain ⟨b, z, hb, hline, hz⟩ := first (by rw [outside_default hd]; rfl) d.plain.1
    exact ⟨d, bs, b, z, rfl, hbs, hb, hline, hz⟩

/-- Where a blank follows the word `type`, that word is the default binding, and what follows up to the comma is
blank. -/
theorem Spelled.type_first {k : Clause} {x : Char} {r : List Char} (h : k.Spelled ("type".toList ++ x :: r))
    (hsolid : Solid ("type".toList ++ x :: r)) (hx : isBlank x = true) :
    (∃ d, k.default = some d ∧ d.text = "type".toList) ∧ ∃ b t, x :: r = b ++ ',' :: t ∧ Many isBlank b ∧
      Bindings.ofClause (',' :: t) = k.undefault.texts := by
  obtain ⟨d, bs, b, z, hd, hbs, hb, hline, hz⟩ := Spelled.starts (c := 't') h rfl
  have hrun := span_run (p := isPlain) plain_type.2 (s := x :: r) (by rintro c ⟨⟩; simp [isPlain, hx])
  have hrun' := span_run (p := isPlain) d.plain.2 (s := b ++ z) (by
    rcases b with _ | ⟨y, b⟩
    · rcases hz with rfl | ⟨t, rfl, -⟩
      · simp
      · rintro c ⟨⟩
        rfl
    · rintro c ⟨⟩
      simp [isPlain, hb y List.mem_cons_self])
  have htext : "type".toList ++ x :: r = d.text ++ (b ++ z) := hline
  rw [htext] at hrun
  have hword : d.text = "type".toList := hrun'.1.symm.trans hrun.1
  have hrest : x :: r = b ++ z := hrun.2.symm.trans hrun'.2
  refine ⟨⟨d, hd, hword⟩, ?_⟩
  rcases hz with rfl | ⟨t, rfl, ht⟩
  · -- The clause would end with a blank.
    rw [List.append_nil] at hrest
    obtain ⟨q, y, rfl⟩ := (List.eq_nil_or_concat b).resolve_left fun h => by simp [h] at hrest
    rw [hrest, List.concat_eq_append, ← List.append_assoc] at hsolid
    obtain ⟨q', y', hlast, hy⟩ := hsolid.last
    have hend := List.append_inj_right' hlast rfl
    rw [← List.singleton_inj.1 hend, hb y (by simp)] at hy
    cases hy
  · refine ⟨b, t, hrest, ⟨?_, hb⟩, ?_⟩
    · rintro rfl
      obtain ⟨rfl, -⟩ := List.cons.inj hrest
      exact absurd hx (by decide)
    · have hlist : Listed ([] :: k.undefault.outside ++ bs) (',' :: t) :=
        Listed.cons (b := []) (e := []) (List.forall_mem_nil _) (List.forall_mem_nil _) ht
      have hread : Bindings.ofClause (',' :: t ++ []) = k.undefault.texts :=
        ofClause_listed (covers_cons k.undefault.covers_outside) hbs hlist fun _ => rfl
      rwa [List.append_nil] at hread

/-! ### Clauses without some of their bindings -/

/-- The clause without its unused bindings. -/
def without (k : Clause) (unused : List Char → Bool) : Clause where
  default := k.default.filter fun n => !unused n.text
  «namespace» := k.namespace.filter fun n => !unused n.text
  named := match (k.named.getD []).filter fun e => !unused e.localName.text with
    | [] => none
    | e :: es => some (e :: es)

lemma getD_named_without (k : Clause) (unused : List Char → Bool) :
    (k.without unused).named.getD [] = (k.named.getD []).filter fun e => !unused e.localName.text := by
  rw [without]
  split <;> simp_all

lemma named_without_ne (k : Clause) (unused : List Char → Bool) : (k.without unused).named ≠ some [] := by
  rw [without]
  split <;> simp

lemma bindings_without (k : Clause) (unused : List Char → Bool) :
    (k.without unused).bindings = k.bindings.filter fun b => !b.isUnused unused := by
  have hfilter {o : Option Name} {f : Name → Binding} (hf : ∀ n, (f n).localName = n) :
      (o.filter fun n => !unused n.text).toList.map f = (o.toList.map f).filter fun b => !b.isUnused unused := by
    rcases o with _ | n
    · rfl
    · cases hn : unused n.text <;> simp [Option.filter, Binding.isUnused, hf, hn]
  have hnamed (es : List Entry) : (es.filter fun e => !unused e.localName.text).map Binding.named =
      (es.map Binding.named).filter fun b => !b.isUnused unused := by
    rw [List.filter_map]
    rfl
  rw [bindings, bindings, getD_named_without, List.filter_append, List.filter_append, hnamed]
  rw [show (k.without unused).default = k.default.filter fun n => !unused n.text from rfl,
    show (k.without unused).namespace = k.namespace.filter fun n => !unused n.text from rfl,
    hfilter fun _ => rfl, hfilter fun _ => rfl]

/-- The unused bindings go by their local names. -/
lemma texts_without (k : Clause) (unused : List Char → Bool) :
    (k.without unused).texts = k.texts.without unused := by
  have hname {o : Option Name} {f : Name → List Char} {p : List Char → Bool} (hp : ∀ n, p (f n) = !unused n.text) :
      (o.filter fun n => !unused n.text).map f = (o.map f).filter p := by
    rcases o with _ | n
    · rfl
    · cases hn : unused n.text <;> simp [Option.filter, hp, hn]
  simp only [texts, Bindings.without, Bindings.mk.injEq]
  refine ⟨hname fun n => rfl, hname fun n => ?_, ?_⟩
  · rw [localName_star]
  · rw [getD_named_without, List.filter_map]
    congr 2
    funext e
    rw [Function.comp_apply, e.localName_text]

lemma length_texts (k : Clause) : k.texts.toList.length = k.bindings.length := by
  rcases hd : k.default with _ | d <;> rcases hn : k.namespace with _ | n <;>
    simp [texts, Bindings.toList, bindings, hd, hn]

lemma toList_texts_eq_nil {k : Clause} : k.texts.toList = [] ↔ k.bindings = [] := by
  rw [← List.length_eq_zero_iff, length_texts, List.length_eq_zero_iff]

/-! ### The clause of some bindings -/

lemma parts_ne_nil {k : Clause} {bs : List (List Char)} (hne : k.bindings ≠ []) (hbs : Braces k.named bs) :
    k.outside ++ bs ≠ [] := by
  intro h
  obtain ⟨houtside, rfl⟩ := List.append_eq_nil_iff.1 h
  generalize hnamed : k.named = named at hbs
  cases hbs
  refine hne ?_
  rcases hd : k.default with _ | d <;> rcases hn : k.namespace with _ | n <;>
    simp [outside, bindings, hd, hn, hnamed] at houtside ⊢

/-- The parts of the text of a clause. -/
lemma clause_texts {k : Clause} (hk : k.named ≠ some []) :
    ∃ bs, Braces k.named bs ∧ (∀ s ∈ k.outside ++ bs, Solid s) ∧
      k.texts.clause = joinWith ", ".toList (k.outside ++ bs) := by
  have solid {bs : List (List Char)} (hbs : ∀ s ∈ bs, Solid s) : ∀ s ∈ k.outside ++ bs, Solid s := by
    intro s hs
    rcases List.mem_append.1 hs with hs | hs
    · exact k.solid_outside s hs
    · exact hbs s hs
  rcases hnamed : k.named with _ | es
  · refine ⟨[], .absent, solid nofun, ?_⟩
    rw [Bindings.clause, texts, hnamed]
    rfl
  · have hne : es ≠ [] := fun h => hk (by rw [hnamed, h])
    have hlist : Listed (es.map Entry.text) (joinWith ", ".toList (es.map Entry.text)) :=
      listed_joinWith (by simpa using hne)
    have hinside : Inside es ([' '] ++ joinWith ", ".toList (es.map Entry.text) ++ [' ']) :=
      .plain ((hlist.pad_front (by simp; rfl)).pad_back (by simp; rfl))
    refine ⟨_, .present hinside, solid fun s hs => ?_, ?_⟩
    · rw [List.mem_singleton.1 hs]
      refine ⟨⟨'{', _, rfl, rfl⟩, ⟨'{' :: _, '}', rfl, rfl⟩, fun h => ?_⟩
      have hfeed : '\n' ∉ joinWith ", ".toList (es.map Entry.text) := fun h => by
        rcases mem_joinWith h with h | ⟨s, hs, hc⟩
        · exact absurd h (by decide)
        · obtain ⟨e, -, rfl⟩ := List.mem_map.1 hs
          exact e.solid_text.oneLine hc
      simp only [List.mem_cons, List.mem_append, hfeed, List.not_mem_nil, or_false, or_self] at h
      exact absurd h (by decide)
    · rw [Bindings.clause, texts, hnamed]
      simp [outside, hne]

end Clause

end Ratchet.ImportLine
