import Mathlib.Tactic
import Ratchet.Number.Scientific
import Ratchet.Proofs.Number.Shortest

/-!
The texts of binary numbers.

A decimal is written with a point, an exponent, or both, and its whole part has no zeros in front. Every finite number has
such a text, and the text's value is the number.
-/

namespace Ratchet.Number

variable {d m : Nat} {u q : Int} {x : Float} {negative : Bool}

/-- A decimal as it is written, without its sign. -/
structure Spelling where
  whole : List Char
  fraction : List Char
  exponent : Option Int
  wholeDigits : ∀ c ∈ whole, c.isDigit = true
  fractionDigits : ∀ c ∈ fraction, c.isDigit = true
  nonempty : whole ≠ []
  leading : whole.head? = some '0' → whole = ['0']
  /-- No whole number is written like this. -/
  marked : fraction ≠ [] ∨ exponent.isSome = true

namespace Spelling

/-- The characters of a decimal. -/
def text (s : Spelling) : List Char :=
  s.whole ++ (if s.fraction.isEmpty then [] else '.' :: s.fraction) ++ s.exponent.elim [] exponentText

/-- The number that a decimal denotes. -/
def value (s : Spelling) (negative : Bool) : Float :=
  ofDecimal negative (Text.digitsValue (s.whole ++ s.fraction)) (s.exponent.getD 0 - s.fraction.length)

/-- The decimal zero. -/
def zero : Spelling where
  whole := ['0']
  fraction := ['0']
  exponent := none
  wholeDigits := List.forall_mem_singleton.2 rfl
  fractionDigits := List.forall_mem_singleton.2 rfl
  nonempty := by decide
  leading _ := rfl
  marked := .inl (by decide)

lemma text_ne_nil (s : Spelling) : s.text ≠ [] := by
  simp [text, s.nonempty]

lemma isDigit_of_head (s : Spelling) : ∀ c ∈ s.text.head?, c.isDigit = true := by
  obtain ⟨c, cs, hcs⟩ := List.exists_cons_of_ne_nil s.nonempty
  intro d hd
  rw [text, hcs] at hd
  rw [← Option.some.inj hd]
  exact s.wholeDigits c (by rw [hcs]; exact List.mem_cons_self)

lemma return_notMem_text (s : Spelling) : '\r' ∉ s.text := by
  have hdigits : ∀ ds : List Char, (∀ c ∈ ds, c.isDigit = true) → '\r' ∉ ds := fun ds hd hmem =>
    absurd (hd _ hmem) (by decide)
  have hexp : ∀ e, '\r' ∉ exponentText e := fun e => by
    have hpadded : '\r' ∉ padded 2 e.natAbs := hdigits _ isDigit_of_mem_padded
    rw [exponentText]
    split <;> simp [hpadded]
  rw [text]
  intro hmem
  rcases List.mem_append.1 hmem with hmem | hmem
  · rcases List.mem_append.1 hmem with hmem | hmem
    · exact hdigits _ s.wholeDigits hmem
    · split at hmem
      · exact absurd hmem List.not_mem_nil
      · exact (List.mem_cons.1 hmem).elim (by decide) (hdigits _ s.fractionDigits)
  · cases he : s.exponent with
    | none =>
      rw [he] at hmem
      exact absurd hmem List.not_mem_nil
    | some e =>
      rw [he] at hmem
      exact hexp e hmem

end Spelling

/-- The digits of a positive number. -/
structure Leads (ds : List Char) (d : Nat) : Prop where
  digits : ∀ c ∈ ds, c.isDigit = true
  value : Text.digitsValue ds = d
  leading : ∃ c cs, ds = c :: cs ∧ c ≠ '0'

lemma leads_toDigits (hd : 0 < d) : Leads (Nat.toDigits 10 d) d :=
  ⟨Text.isDigit_of_mem_toDigits, Text.digitsValue_toDigits d, Text.toDigits_head hd⟩

section

variable {ds : List Char} {k : Nat}

lemma isDigit_of_mem_zeros : ∀ c ∈ List.replicate k '0', c.isDigit = true := fun c hc => by
  rw [List.eq_of_mem_replicate hc]
  rfl

/-- Zeros stand between the point and the digits. -/
lemma spelled_below (h : Leads ds d) (k : Nat) : ∃ s : Spelling, '0' :: '.' :: (List.replicate k '0' ++ ds) = s.text ∧
    ∀ negative, s.value negative = ofDecimal negative d (-k - ds.length) := by
  obtain ⟨c, cs, rfl, -⟩ := h.leading
  have hval : Text.digitsValue ('0' :: (List.replicate k '0' ++ c :: cs)) = d :=
    (Text.digitsValue_zeros (k + 1) (c :: cs)).trans h.value
  refine ⟨⟨['0'], List.replicate k '0' ++ c :: cs, none, List.forall_mem_singleton.2 rfl,
    fun c hc => (List.mem_append.1 hc).elim (isDigit_of_mem_zeros c) (h.digits c), by decide, fun _ => rfl,
    .inl (by simp)⟩, by simp [Spelling.text], fun negative => ?_⟩
  rw [Spelling.value, List.singleton_append, hval]
  congr 1
  simp only [Option.getD_none, List.length_append, List.length_replicate]
  push_cast
  omega

/-- Zeros stand between the digits and the point. -/
lemma spelled_above (h : Leads ds d) (k : Nat) : ∃ s : Spelling, ds ++ List.replicate k '0' ++ ['.', '0'] = s.text ∧
    ∀ negative, s.value negative = ofDecimal negative d k := by
  obtain ⟨c, cs, rfl, hne⟩ := h.leading
  have hval : Text.digitsValue (c :: cs ++ List.replicate k '0' ++ ['0']) = d * 10 ^ (k + 1) := by
    rw [List.append_assoc, ← List.replicate_succ', Text.digitsValue_append_zeros, h.value]
  refine ⟨⟨c :: cs ++ List.replicate k '0', ['0'], none,
    fun c hc => (List.mem_append.1 hc).elim (h.digits c) (isDigit_of_mem_zeros c), List.forall_mem_singleton.2 rfl, by simp,
    fun hc => absurd (Option.some.inj hc) hne, .inl (by decide)⟩, by simp [Spelling.text], fun negative => ?_⟩
  rw [Spelling.value, hval, ofDecimal_mul_tens]
  congr 1
  simp only [Option.getD_none, List.length_singleton]
  push_cast
  omega

/-- The point stands between the digits. -/
lemma spelled_between (h : Leads ds d) (hk : 0 < k) (hlen : k < ds.length) :
    ∃ s : Spelling, ds.take k ++ '.' :: ds.drop k = s.text ∧
      ∀ negative, s.value negative = ofDecimal negative d (k - ds.length) := by
  obtain ⟨c, cs, rfl, hne⟩ := h.leading
  obtain ⟨k, rfl⟩ := Nat.exists_eq_add_of_le' hk
  have hdrop : (c :: cs).drop (k + 1) ≠ [] := by
    rw [← List.length_pos_iff, List.length_drop]
    omega
  refine ⟨⟨(c :: cs).take (k + 1), (c :: cs).drop (k + 1), none, fun c hc => h.digits c (List.mem_of_mem_take hc),
    fun c hc => h.digits c (List.mem_of_mem_drop hc), by simp, fun hc => absurd (Option.some.inj hc) hne, .inl hdrop⟩, ?_,
    fun negative => ?_⟩
  · rw [Spelling.text, if_neg (by simpa using hdrop)]
    exact (List.append_nil _).symm
  · rw [Spelling.value, List.take_append_drop, h.value, List.length_drop]
    congr 1
    simp only [Option.getD_none]
    omega

/-- The point stands after the first digit, if more follow, and an exponent at the end. -/
lemma spelled_scientific {c : Char} {cs : List Char} (h : Leads (c :: cs) d) (hne : c ≠ '0') (e : Int) :
    ∃ s : Spelling, c :: (if cs.isEmpty then [] else '.' :: cs) ++ exponentText e = s.text ∧
      ∀ negative, s.value negative = ofDecimal negative d (e - cs.length) := by
  refine ⟨⟨[c], cs, some e, fun d hd => h.digits d (List.mem_cons.2 (.inl (List.mem_singleton.1 hd))),
    fun d hd => h.digits d (List.mem_cons_of_mem c hd), by simp, fun hc => absurd (Option.some.inj hc) hne, .inr rfl⟩, rfl,
    fun negative => ?_⟩
  rw [Spelling.value, List.singleton_append, h.value]
  rfl

end

/-- What is written for a decimal denotes it. -/
lemma writeDecimal_spelled (hd : 0 < d) (u : Int) :
    ∃ s : Spelling, writeDecimal d u = s.text ∧ ∀ negative, s.value negative = ofDecimal negative d u := by
  have hleads := leads_toDigits hd
  unfold writeDecimal
  dsimp only
  generalize Nat.toDigits 10 d = ds at hleads ⊢
  obtain ⟨c, cs, hcs, hne⟩ := hleads.leading
  have hpos : 0 < ds.length := by rw [hcs]; exact Nat.succ_pos _
  split
  · split
    · obtain ⟨s, htext, hvalue⟩ := spelled_below hleads (-(u + ds.length - 1) - 1).toNat
      exact ⟨s, htext, fun negative => by rw [hvalue]; congr 1; omega⟩
    split
    · obtain ⟨s, htext, hvalue⟩ := spelled_above hleads ((u + ds.length - 1).toNat + 1 - ds.length)
      exact ⟨s, htext, fun negative => by rw [hvalue]; congr 1; omega⟩
    · obtain ⟨s, htext, hvalue⟩ := spelled_between hleads (Nat.succ_pos (u + ds.length - 1).toNat) (by omega)
      exact ⟨s, htext, fun negative => by rw [hvalue]; congr 1; omega⟩
  · subst hcs
    obtain ⟨s, htext, hvalue⟩ := spelled_scientific hleads hne (u + (c :: cs).length - 1)
    refine ⟨s, ?_, fun negative => by rw [hvalue, List.length_cons]; congr 1; push_cast; omega⟩
    rw [← htext]
    rcases cs with _ | ⟨c', cs⟩
    · rfl
    · rfl

lemma Spelling.zero_value (negative : Bool) : Spelling.zero.value negative = ofFields negative 0 0 := by
  rw [Spelling.value, ofDecimal, if_pos (by decide)]

/-- **The shortest text of a finite number denotes it.** -/
theorem shortest_spelled (h : parts x = .finite negative m q) :
    ∃ s : Spelling, (shortest x).toList = (if negative then '-' :: s.text else s.text) ∧ s.value negative = x := by
  obtain ⟨hx, hc⟩ := assemble_parts h
  obtain ⟨s, htext, hvalue⟩ : ∃ s : Spelling, (if m == 0 then ['0', '.', '0'] else
      writeDecimal (stripZeros 400 (shortDigits m q).1 (shortDigits m q).2).1
        (stripZeros 400 (shortDigits m q).1 (shortDigits m q).2).2) = s.text ∧ s.value negative = x := by
    rcases Nat.eq_zero_or_pos m with rfl | hm
    · refine ⟨.zero, rfl, ?_⟩
      rw [Spelling.zero_value, ← hx, assemble, if_pos (by rw [twoTo_52]; decide)]
    · have hd := stripZeros_denotes 400 (shortDigits_denotes hc hm)
      obtain ⟨s, htext, hvalue⟩ := writeDecimal_spelled hd.1 (stripZeros 400 (shortDigits m q).1 (shortDigits m q).2).2
      refine ⟨s, ?_, ?_⟩
      · rw [if_neg (by simpa using hm.ne'), htext]
      · rw [hvalue, hd.signed hc, hx]
  refine ⟨s, ?_, hvalue⟩
  rw [shortest, h]
  dsimp only
  rw [String.toList_ofList, htext]

end Ratchet.Number
