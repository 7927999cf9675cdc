import Ratchet.Proofs.ImportLine.Reading
import Ratchet.Proofs.Path

/-!
The names that a statement imports.

A `Name` is any word; it may be `from`, `as` or `type` itself. An `Entry` is a name in braces, with a mark and under
a name of its own or not. What is written determines what is named, and the local name that is read off an entry is
the name by which the file knows it.
-/

namespace Ratchet

namespace Text

lemma mem_joinWith {sep : List Char} {ps : List (List Char)} {c : Char} (h : c ∈ joinWith sep ps) :
    c ∈ sep ∨ ∃ p ∈ ps, c ∈ p := by
  induction ps with
  | nil => exact absurd h List.not_mem_nil
  | cons p ps ih =>
    rcases ps with _ | ⟨q, ps⟩
    · exact .inr ⟨p, List.mem_cons_self, h⟩
    · rw [joinWith] at h
      · rcases List.mem_append.1 h with h | h
        · rcases List.mem_append.1 h with h | h
          · exact .inr ⟨p, List.mem_cons_self, h⟩
          · exact .inl h
        · rcases ih h with h | ⟨r, hr, hc⟩
          · exact .inl h
          · exact .inr ⟨r, List.mem_cons_of_mem p hr, hc⟩
      · exact List.cons_ne_nil q ps

/-- Blanks around a text go when it is trimmed, and nothing else. -/
lemma trimList_blanks {b s e : List Char} (hb : ∀ c ∈ b, isBlank c = true) (he : ∀ c ∈ e, isBlank c = true)
    (hfirst : ∀ c ∈ s.head?, isBlank c = false) (hlast : ∀ c ∈ s.getLast?, isBlank c = false) :
    trimList (b ++ (s ++ e)) = s := by
  rw [trimList, trimWhile, List.dropWhile_append_of_pos hb]
  rcases List.eq_nil_or_concat s with rfl | ⟨r, x, rfl⟩
  · rw [List.nil_append, List.dropWhile_eq_nil_iff.2 he, dropEndWhile_nil]
  · have hx : isBlank x = false := hlast x (by simp)
    have hstart : (r.concat x ++ e).dropWhile isBlank = r.concat x ++ e := by
      refine (span_run (g := []) (fun c hc => absurd hc List.not_mem_nil) fun c hc => hfirst c ?_).2
      cases r <;> simpa using hc
    rw [hstart, dropEndWhile, List.reverse_append,
      List.dropWhile_append_of_pos fun c hc => he c (List.mem_reverse.1 hc)]
    simp [hx]

end Text

namespace ImportLine

open Text

/-! ### Words -/

lemma Solid.head {s : List Char} (h : Solid s) : ∀ c ∈ s.head?, isBlank c = false := by
  obtain ⟨x, r, rfl, hx⟩ := h.first
  rintro c ⟨⟩
  exact hx

lemma Solid.getLast {s : List Char} (h : Solid s) : ∀ c ∈ s.getLast?, isBlank c = false := by
  obtain ⟨r, x, rfl, hx⟩ := h.last
  intro c hc
  rw [List.getLast?_concat] at hc
  obtain rfl := Option.some.inj hc
  exact hx

lemma Solid.ne_nil {s : List Char} (h : Solid s) : s ≠ [] := by
  obtain ⟨x, r, rfl, -⟩ := h.first
  exact List.cons_ne_nil x r

lemma Solid.trimList_eq {s : List Char} (h : Solid s) : trimList s = s := by
  simpa using trimList_blanks (b := []) (e := []) nofun nofun h.head h.getLast

/-- The first and the last character of two solid texts are those of what they are the ends of. -/
lemma Solid.append {s t : List Char} (hs : Solid s) (ht : Solid t) {m : List Char} (hm : '\n' ∉ m) :
    Solid (s ++ (m ++ t)) where
  first := by
    obtain ⟨x, r, rfl, hx⟩ := hs.first
    exact ⟨x, r ++ (m ++ t), rfl, hx⟩
  last := by
    obtain ⟨r, x, rfl, hx⟩ := ht.last
    exact ⟨s ++ (m ++ r), x, by simp, hx⟩
  oneLine := by simp [hs.oneLine, ht.oneLine, hm]

/-- The last character of a solid text is that of each of its ends. -/
lemma Solid.drop {a r : List Char} {x : Char} (h : Solid (a ++ x :: r)) (hx : isBlank x = false) : Solid (x :: r) where
  first := ⟨x, r, rfl, hx⟩
  last := by
    obtain ⟨q, y, hlast, hy⟩ := h.last
    obtain ⟨p, z, hz⟩ := (List.eq_nil_or_concat (x :: r)).resolve_left (List.cons_ne_nil x r)
    have hend : (a ++ x :: r).getLast? = some y := by rw [hlast, List.getLast?_concat]
    rw [List.concat_eq_append] at hz
    rw [List.getLast?_append_cons, hz, List.getLast?_concat] at hend
    obtain rfl := Option.some.inj hend
    exact ⟨p, z, hz, hy⟩
  oneLine := fun hmem => h.oneLine (List.mem_append_right a hmem)

lemma solid_joinWith {sep : List Char} {ps : List (List Char)} (hne : ps ≠ []) (hsep : '\n' ∉ sep)
    (h : ∀ p ∈ ps, Solid p) : Solid (joinWith sep ps) := by
  induction ps with
  | nil => exact absurd rfl hne
  | cons p ps ih =>
    rcases ps with _ | ⟨q, ps⟩
    · exact h p List.mem_cons_self
    · rw [joinWith, List.append_assoc]
      · exact (h p List.mem_cons_self).append
          (ih (List.cons_ne_nil q ps) fun r hr => h r (List.mem_cons_of_mem p hr)) hsep
      · exact List.cons_ne_nil q ps

/-- A character that stands for nothing in a statement. -/
def isPlain (c : Char) : Bool := !isBlank c && !(['{', '}', ',', '*', ';', '\'', '"'].contains c)

lemma not_isBlank_of_isPlain {c : Char} (h : isPlain c = true) : isBlank c = false := by
  rw [isPlain, Bool.and_eq_true] at h
  simpa using h.1

lemma not_isQuote_of_isPlain {c : Char} (h : isPlain c = true) : isQuote c = false := by
  rw [Bool.eq_false_iff]
  intro hq
  rcases Bool.or_eq_true _ _ ▸ hq with hq | hq <;> rw [beq_iff_eq.1 hq] at h <;> exact absurd h (by decide)

lemma not_mem_of_plain {s : List Char} (h : ∀ c ∈ s, isPlain c = true) {c : Char} (hc : isPlain c = false) : c ∉ s :=
  fun hmem => by simp [h c hmem] at hc

lemma solid_of_plain {s : List Char} (h : Many isPlain s) : Solid s where
  first := by
    obtain ⟨x, r, rfl⟩ := List.exists_cons_of_ne_nil h.1
    exact ⟨x, r, rfl, not_isBlank_of_isPlain (h.2 x List.mem_cons_self)⟩
  last := by
    obtain ⟨r, x, rfl⟩ := (List.eq_nil_or_concat s).resolve_left h.1
    exact ⟨r, x, by simp, not_isBlank_of_isPlain (h.2 x (by simp))⟩
  oneLine := not_mem_of_plain h.2 rfl

lemma plain_type : Many isPlain "type".toList :=
  ⟨List.cons_ne_nil _ _, List.all_eq_true.1 (by decide : "type".toList.all isPlain = true)⟩

lemma plain_as : Many isPlain "as".toList :=
  ⟨List.cons_ne_nil _ _, List.all_eq_true.1 (by decide : "as".toList.all isPlain = true)⟩

/-- A name: any word. -/
@[ext]
structure Name where
  text : List Char
  plain : Many isPlain text

/-! ### Entries -/

/-- A word under a name of its own: `x` or `x as y`. -/
def aliased (x : List Char) (renamed : Option Name) : List Char :=
  joinWith [' '] (x :: (renamed.map fun a => ["as".toList, a.text]).getD [])

/-- A name in braces: `x`, `x as y`, `type x` or `type x as y`. -/
structure Entry where
  typed : Bool
  imported : Name
  renamed : Option Name
  /-- The word `type` in front of another one is the mark. -/
  untyped : imported.text ≠ "type".toList

namespace Entry

/-- The entry as it is written. -/
def text (e : Entry) : List Char := (if e.typed then "type ".toList else []) ++ aliased e.imported.text e.renamed

/-- The name by which the file knows what is imported. -/
def localName (e : Entry) : Name := e.renamed.getD e.imported

end Entry

/-- A namespace as it is written. -/
def star (n : Name) : List Char := aliased ['*'] (some n)

lemma aliased_some (x : List Char) (a : Name) : aliased x (some a) = x ++ (" as ".toList ++ a.text) := by
  simp [aliased, joinWith]

lemma solid_aliased {x : List Char} (hx : Solid x) (renamed : Option Name) : Solid (aliased x renamed) := by
  refine solid_joinWith (List.cons_ne_nil _ _) (by decide) fun p hp => ?_
  rcases List.mem_cons.1 hp with rfl | hp
  · exact hx
  · cases renamed with
    | none => exact absurd hp List.not_mem_nil
    | some a =>
      rcases List.mem_pair.1 hp with rfl | rfl
      · exact solid_of_plain plain_as
      · exact solid_of_plain a.plain

lemma solid_star (n : Name) : Solid (star n) :=
  solid_aliased ⟨⟨'*', [], rfl, rfl⟩, ⟨[], '*', rfl, rfl⟩, by decide⟩ _

namespace Entry

lemma solid_text (e : Entry) : Solid e.text := by
  have hsolid := solid_aliased (solid_of_plain e.imported.plain) e.renamed
  rw [text]
  split
  · exact (solid_of_plain plain_type).append hsolid (m := [' ']) (by decide)
  · exact hsolid

lemma mem_text {e : Entry} {c : Char} (h : c ∈ e.text) : c = ' ' ∨ isPlain c = true := by
  have hmark : c ∈ (if e.typed then "type ".toList else []) → c = ' ' ∨ isPlain c = true := by
    split
    · intro hc
      rcases List.mem_append.1 (show c ∈ "type".toList ++ [' '] from hc) with hc | hc
      · exact .inr (plain_type.2 c hc)
      · exact .inl (List.mem_singleton.1 hc)
    · exact fun hc => absurd hc List.not_mem_nil
  rcases List.mem_append.1 h with h | h
  · exact hmark h
  · rcases mem_joinWith h with h | ⟨p, hp, hc⟩
    · exact .inl (List.mem_singleton.1 h)
    · rcases List.mem_cons.1 hp with rfl | hp
      · exact .inr (e.imported.plain.2 c hc)
      · cases ha : e.renamed with
        | none => simp [ha] at hp
        | some a =>
          rw [ha] at hp
          rcases List.mem_pair.1 hp with rfl | rfl
          · exact .inr (plain_as.2 c hc)
          · exact .inr (a.plain.2 c hc)

end Entry

/-! ### Local names -/

lemma not_startsAs {c : Char} {s : List Char} (h : ' ' ≠ c) : ¬ " as ".toList.isPrefixOf (c :: s) = true := by
  rw [List.isPrefixOf_iff_prefix]
  rintro ⟨t, ht⟩
  exact h (List.cons.inj ht).1

lemma cutFirst?_none {s : List Char} (h : ' ' ∉ s) : cutFirst? " as ".toList s = none := by
  induction s with
  | nil => rfl
  | cons c s ih =>
    rw [cutFirst?, if_neg (not_startsAs fun hc => h (hc ▸ List.mem_cons_self)),
      ih fun hs => h (List.mem_cons_of_mem c hs), Option.map_none]

lemma cutFirst?_some {x : List Char} (h : ' ' ∉ x) (r : List Char) :
    cutFirst? " as ".toList (x ++ (" as ".toList ++ r)) = some (x, r) := by
  induction x with
  | nil => rfl
  | cons c x ih =>
    rw [List.cons_append, cutFirst?, if_neg (not_startsAs fun hc => h (hc ▸ List.mem_cons_self)),
      ih fun hs => h (List.mem_cons_of_mem c hs)]
    rfl

lemma afterAs_word {s : List Char} (h : ' ' ∉ s) (fuel : Nat) : afterAs fuel s = s := by
  cases fuel with
  | zero => rfl
  | succ fuel => rw [afterAs, cutFirst?_none h]

/-- What stands after the last ` as ` of a word under a name of its own is that name. -/
lemma afterAs_aliased {x : Name} {y : List Char} (hy : ' ' ∉ y) (renamed : Option Name)
    (hx : renamed = none → y = x.text) :
    afterAs (aliased y renamed).length (aliased y renamed) = (renamed.getD x).text := by
  cases renamed with
  | none => rw [aliased, Option.map_none, Option.getD_none, joinWith, afterAs_word hy, hx rfl, Option.getD_none]
  | some a =>
    have ha : ' ' ∉ a.text := not_mem_of_plain a.plain.2 rfl
    have hlen : (aliased y (some a)).length = (y.length + 3 + a.text.length) + 1 := by
      rw [aliased_some]
      simp
      omega
    rw [hlen, aliased_some, afterAs, cutFirst?_some hy]
    exact afterAs_word ha _

lemma localName_unmarked {s : List Char} (hs : Solid s) (h : dropStart? "type ".toList s = none) :
    localName s = trimList (afterAs s.length s) := by
  rw [localName, hs.trimList_eq, h]

lemma localName_marked {s : List Char} (hs : Solid s) :
    localName ("type ".toList ++ s) = trimList (afterAs s.length s) := by
  have hsolid : Solid ("type ".toList ++ s) := (solid_of_plain plain_type).append hs (m := [' ']) (by decide)
  rw [localName, hsolid.trimList_eq, dropStart?_eq_some.2 rfl]
  simp only [hs.trimList_eq]

/-- The words of a name are between its spaces. -/
lemma split_aliased {x : List Char} (hx : ' ' ∉ x) (renamed : Option Name) :
    splitAtChar ' ' (aliased x renamed) = x :: (renamed.map fun a => ["as".toList, a.text]).getD [] := by
  refine splitAtChar_joinWith (List.cons_ne_nil _ _) fun p hp => ?_
  rcases List.mem_cons.1 hp with rfl | hp
  · exact hx
  · cases renamed with
    | none => exact absurd hp List.not_mem_nil
    | some a =>
      rcases List.mem_pair.1 hp with rfl | rfl
      · decide
      · exact not_mem_of_plain a.plain.2 rfl

/-- Another word than `type` in front is no mark. -/
lemma dropStart?_aliased {x : List Char} (hx : ' ' ∉ x) (hne : x ≠ "type".toList) (renamed : Option Name) :
    dropStart? "type ".toList (aliased x renamed) = none := by
  rcases h : dropStart? "type ".toList (aliased x renamed) with _ | r
  · rfl
  · have hs := dropStart?_eq_some.1 h
    have hwords := split_aliased hx renamed
    rw [hs, show "type ".toList ++ r = "type".toList ++ ' ' :: r from rfl, splitAtChar_append,
      splitAtChar_eq_singleton (by decide)] at hwords
    exact absurd (List.cons.inj hwords).1.symm hne

theorem Entry.localName_text (e : Entry) : ImportLine.localName e.text = e.localName.text := by
  have hx : ' ' ∉ e.imported.text := not_mem_of_plain e.imported.plain.2 rfl
  have hsolid := solid_aliased (solid_of_plain e.imported.plain) e.renamed
  have hlast := afterAs_aliased hx e.renamed fun _ => rfl
  have htrim := (solid_of_plain e.localName.plain).trimList_eq
  cases htyped : e.typed with
  | true =>
    have ht : e.text = "type ".toList ++ aliased e.imported.text e.renamed := by simp [Entry.text, htyped]
    rw [ht, localName_marked hsolid, hlast]
    exact htrim
  | false =>
    have ht : e.text = aliased e.imported.text e.renamed := by simp [Entry.text, htyped]
    rw [ht, localName_unmarked hsolid (dropStart?_aliased hx e.untyped e.renamed), hlast]
    exact htrim

theorem localName_star (n : Name) : localName (star n) = n.text := by
  have hstar := localName_unmarked (solid_star n) (dropStart?_aliased (by decide) (by decide) _)
  rw [hstar, star, afterAs_aliased (x := n) (by decide) (some n) nofun]
  exact (solid_of_plain n.plain).trimList_eq

/-! ### What is written determines what is named -/

lemma aliased_injective {x y : List Char} {a b : Option Name} (hx : ' ' ∉ x) (hy : ' ' ∉ y)
    (h : aliased x a = aliased y b) : x = y ∧ a = b := by
  have hwords := (split_aliased hx a).symm.trans ((congrArg (splitAtChar ' ') h).trans (split_aliased hy b))
  obtain ⟨rfl, hrest⟩ := List.cons.inj hwords
  refine ⟨rfl, ?_⟩
  rcases a with _ | a <;> rcases b with _ | b
  · rfl
  · cases hrest
  · cases hrest
  · exact congrArg some (Name.ext (List.cons.inj (List.cons.inj hrest).2).1)

lemma star_injective {m n : Name} (h : star m = star n) : m = n :=
  Option.some.inj (aliased_injective (by decide) (by decide) h).2

lemma Entry.text_injective {e e' : Entry} (h : e.text = e'.text) : e = e' := by
  obtain ⟨typed, x, a, hx⟩ := e
  obtain ⟨typed', y, b, hy⟩ := e'
  have hspace (n : Name) : ' ' ∉ n.text := not_mem_of_plain n.plain.2 rfl
  -- A mark in front of one of the two only would be the name of the other.
  have mixed {x y : Name} {a b : Option Name} (hy : y.text ≠ "type".toList) :
      "type ".toList ++ aliased x.text a ≠ aliased y.text b := fun h => by
    have hnone := dropStart?_aliased (hspace y) hy b
    rw [← h, dropStart?_eq_some.2 rfl] at hnone
    cases hnone
  cases typed <;> cases typed' <;> simp only [Entry.text, if_true, Bool.false_eq_true, if_false, List.nil_append] at h
  · obtain ⟨hname, rfl⟩ := aliased_injective (hspace x) (hspace y) h
    obtain rfl := Name.ext hname
    rfl
  · exact absurd h.symm (mixed hx)
  · exact absurd h (mixed hy)
  · obtain ⟨hname, rfl⟩ := aliased_injective (hspace x) (hspace y) (List.append_cancel_left h)
    obtain rfl := Name.ext hname
    rfl

end ImportLine

end Ratchet
