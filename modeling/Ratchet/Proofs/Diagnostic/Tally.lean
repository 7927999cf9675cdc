import Ratchet.Diagnostic.Tally
import Ratchet.Proofs.Grouping.Partition

/-!
Tallies and their order.

A tally has every key once, in the order in which the keys come first, with the number of times that it comes. Sorted by
count it has the keys that come most often first, and of those that come equally often the one that comes first.
-/

namespace Ratchet.Tally

variable {ks : List String}

/-! ### Counting -/

/-- One more of a key, by induction on the keys. -/
lemma bump_map (hn : ks.Nodup) (k : String) (g : String → Nat) : bump k (ks.map fun j => (j, g j)) =
    if k ∈ ks then ks.map fun j => (j, if j = k then g j + 1 else g j)
    else ks.map (fun j => (j, g j)) ++ [(k, 1)] := by
  induction ks with
  | nil => rfl
  | cons i ks ih =>
    obtain ⟨hi, hn⟩ := List.nodup_cons.1 hn
    rw [List.map_cons, bump]
    by_cases hik : i = k
    · subst hik
      rw [if_pos (beq_self_eq_true _), if_pos List.mem_cons_self, List.map_cons, if_pos rfl]
      congr 1
      refine List.map_congr_left fun j hj => ?_
      have hij : j ≠ i := fun h => hi (h ▸ hj)
      rw [if_neg hij]
    · have hmem : k ∈ i :: ks ↔ k ∈ ks := by simp [Ne.symm hik]
      rw [if_neg (by simpa using hik), ih hn]
      simp only [hmem]
      split
      · rw [List.map_cons, if_neg hik]
      · rw [List.cons_append]

/-- A tally has the distinct keys, in the order in which they come first, with how often each comes. -/
theorem ofKeys_eq (ks : List String) : ofKeys ks = ks.eraseDups.map fun k => (k, ks.count k) := by
  induction ks using List.reverseRecOn with
  | nil => rfl
  | append_singleton ks k ih =>
    have hadd : ofKeys (ks ++ [k]) = bump k (ofKeys ks) := by
      simp only [ofKeys, List.foldl_append, List.foldl_cons, List.foldl_nil]
    rw [hadd, ih, bump_map (nodup_eraseDups ks), eraseDups_concat]
    simp only [List.mem_eraseDups]
    split
    · refine List.map_congr_left fun j _ => ?_
      by_cases hjk : j = k
      · simp [hjk, List.count_append]
      · simp [hjk, List.count_append, Ne.symm hjk]
    · rename_i hk
      rw [List.map_append, List.map_singleton, List.count_append, List.count_eq_zero_of_not_mem hk]
      congr 1
      · refine List.map_congr_left fun j hj => ?_
        have hjk : k ≠ j := fun h => hk (List.mem_eraseDups.1 (h ▸ hj))
        simp [List.count_append, hjk]
      · simp

/-- The distinct values of a list are in the order in which they come first. -/
lemma pairwise_eraseDups (ks : List String) : ks.eraseDups.Pairwise fun x y => ks.idxOf x < ks.idxOf y := by
  induction ks using List.reverseRecOn with
  | nil => exact .nil
  | append_singleton ks k ih =>
    have hold : ks.eraseDups.Pairwise fun x y => (ks ++ [k]).idxOf x < (ks ++ [k]).idxOf y :=
      ih.imp_of_mem fun hx hy h => by
        rwa [List.idxOf_append_of_mem (List.mem_eraseDups.1 hx), List.idxOf_append_of_mem (List.mem_eraseDups.1 hy)]
    rw [eraseDups_concat]
    split
    · exact hold
    · rename_i hk
      refine List.pairwise_append.2 ⟨hold, List.pairwise_singleton _ _, fun x hx y hy => ?_⟩
      have hx' := List.mem_eraseDups.1 hx
      rw [List.mem_singleton.1 hy, List.idxOf_append_of_mem hx', List.idxOf_append_of_notMem hk]
      exact (List.idxOf_lt_length_of_mem hx').trans_le (Nat.le_add_right _ _)

/-! ### Sorting -/

/-- Of two values in a list without duplicates one stands first, by induction on the list. -/
lemma not_sublist_swap {α : Type} {l : List α} {x y : α} (hn : l.Nodup) (h : [x, y].Sublist l) :
    ¬ [y, x].Sublist l := by
  induction l with
  | nil => exact absurd h (by simp)
  | cons a l ih =>
    obtain ⟨ha, hl⟩ := List.nodup_cons.1 hn
    intro h'
    rcases h with _ | ⟨_, h⟩ | ⟨_, h⟩ <;> rcases h' with _ | ⟨_, h'⟩ | ⟨_, h'⟩
    · exact ih hl h h'
    · exact ha (h.subset (by simp))
    · exact ha (h'.subset (by simp))
    · exact ha (h.subset (by simp))

/-- A value that may stand after another one, and that a sort has put before it, stood before it already. -/
lemma sublist_of_mergeSort {α : Type} {l : List α} {le : α → α → Bool} {x y : α}
    (htrans : ∀ x y z, le x y = true → le y z = true → le x z = true) (htotal : ∀ x y, (le x y || le y x) = true)
    (hn : l.Nodup) (h : [x, y].Sublist (l.mergeSort le)) (hle : le y x = true) : [x, y].Sublist l := by
  have hsorted : (l.mergeSort le).Nodup := List.nodup_mergeSort.2 hn
  have hx : x ∈ l := List.mem_mergeSort.1 (h.subset (by simp))
  have hy : y ∈ l := List.mem_mergeSort.1 (h.subset (by simp))
  have hne : y ≠ x := fun heq => not_sublist_swap hsorted h (heq ▸ h)
  obtain ⟨s, t, rfl⟩ := List.append_of_mem hx
  rcases List.mem_append.1 hy with hys | hyt
  · -- The sort would have kept them in the order in which they stood.
    have hyx : [y, x].Sublist (s ++ x :: t) :=
      (List.singleton_sublist.2 hys).append (List.singleton_sublist.2 List.mem_cons_self)
    exact absurd (List.pair_sublist_mergeSort htrans htotal hle hyx) (not_sublist_swap hsorted h)
  · have hxy : [x, y].Sublist (x :: t) :=
      .cons_cons x (List.singleton_sublist.2 ((List.mem_cons.1 hyt).resolve_left hne))
    exact hxy.trans (List.sublist_append_right s _)

/-- Whether one entry stands before another when they are sorted by count: it has more, or equally many of a key that
comes earlier. -/
def Ranked (ks : List String) (x y : String × Nat) : Prop := y.2 < x.2 ∨ x.2 = y.2 ∧ ks.idxOf x.1 < ks.idxOf y.1

/-- The entries of a sorted tally. -/
lemma mem_byCount (ks : List String) {x : String × Nat} : x ∈ byCount (ofKeys ks) ↔ x.1 ∈ ks ∧ x.2 = ks.count x.1 := by
  rw [byCount, List.mem_mergeSort, ofKeys_eq, List.mem_map]
  constructor
  · rintro ⟨k, hk, rfl⟩
    exact ⟨List.mem_eraseDups.1 hk, rfl⟩
  · rintro ⟨hk, hn⟩
    exact ⟨x.1, List.mem_eraseDups.2 hk, Prod.ext rfl hn.symm⟩

/-- The keys that come most often stand first in a sorted tally, and of those that come equally often the one that comes
first. -/
theorem pairwise_byCount (ks : List String) : (byCount (ofKeys ks)).Pairwise (Ranked ks) := by
  have hfirst : (ofKeys ks).Pairwise fun x y => ks.idxOf x.1 < ks.idxOf y.1 := by
    rw [ofKeys_eq, List.pairwise_map]
    exact pairwise_eraseDups ks
  have hnodup : (ofKeys ks).Nodup := hfirst.imp fun {x y} h heq => by
    rw [heq] at h
    exact lt_irrefl _ h
  have htrans : ∀ x y z : String × Nat, decide (y.2 ≤ x.2) = true → decide (z.2 ≤ y.2) = true →
      decide (z.2 ≤ x.2) = true := fun x y z => by
    simp only [decide_eq_true_eq]
    omega
  have htotal : ∀ x y : String × Nat, (decide (y.2 ≤ x.2) || decide (x.2 ≤ y.2)) = true := fun x y => by
    simp only [Bool.or_eq_true, decide_eq_true_eq]
    omega
  have hsorted : (byCount (ofKeys ks)).Pairwise fun x y => decide (y.2 ≤ x.2) = true :=
    List.pairwise_mergeSort htrans htotal _
  refine List.pairwise_iff_forall_sublist.2 fun {x y} hxy => ?_
  have hle : y.2 ≤ x.2 := by simpa using List.pairwise_iff_forall_sublist.1 hsorted hxy
  rcases Nat.lt_or_eq_of_le hle with hlt | heq
  · exact .inl hlt
  · have hstood := sublist_of_mergeSort htrans htotal hnodup hxy (by simpa using heq.ge)
    exact .inr ⟨heq.symm, List.pairwise_iff_forall_sublist.1 hfirst hstood⟩

/-- The entries with many of a key stand first in a sorted tally. -/
lemma takeWhile_byCount (ks : List String) (n : Nat) :
    (byCount (ofKeys ks)).takeWhile (n < ·.2) = (byCount (ofKeys ks)).filter (n < ·.2) := by
  have hsorted : (byCount (ofKeys ks)).Pairwise fun x y => y.2 ≤ x.2 :=
    (pairwise_byCount ks).imp fun h => h.elim Nat.le_of_lt fun h => h.1.ge
  generalize byCount (ofKeys ks) = t at hsorted
  induction t with
  | nil => rfl
  | cons x t ih =>
    obtain ⟨hx, ht⟩ := List.pairwise_cons.1 hsorted
    by_cases hn : n < x.2
    · rw [List.takeWhile_cons_of_pos (by simpa using hn), List.filter_cons_of_pos (by simpa using hn), ih ht]
    · rw [List.takeWhile_cons_of_neg (by simpa using hn), List.filter_cons_of_neg (by simpa using hn)]
      refine (List.filter_eq_nil_iff.2 fun y hy => ?_).symm
      have := hx y hy
      simp only [decide_eq_true_eq]
      omega

end Ratchet.Tally
