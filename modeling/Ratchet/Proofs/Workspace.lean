import Ratchet.Proofs.Tree
import Ratchet.Workspace

/-!
The files of a workspace by their places.

A walk names each file by the path from the root to it. `mem_files` says which files these are, and
`stat_join` that the path leads back to the file.
-/

namespace Ratchet

open Ratchet.Tree

variable {t : Tree} {p q : Place} {b : ByteArray}

lemma Tree.mem_filesBelow : (q, b) ∈ t.filesBelow p ↔ q ≠ [] ∧ t.get? (p ++ q) = some (.file b) := by
  rw [filesBelow, List.mem_filterMap]
  constructor
  · rintro ⟨⟨r, _ | _⟩, hr, h⟩
    · simp only [Option.ite_none_right_eq_some, Bool.and_eq_true, bne_iff_ne, ne_eq,
        Option.some.injEq, Prod.mk.injEq, List.isPrefixOf_iff_prefix] at h
      obtain ⟨⟨⟨s, rfl⟩, hne⟩, rfl, rfl⟩ := h
      rw [List.drop_left]
      have hs : s ≠ [] := by
        rintro rfl
        exact hne (List.append_nil p)
      exact ⟨hs, (get?_eq_some (by simp [hs])).2 hr⟩
    · exact absurd h nofun
  · rintro ⟨hq, h⟩
    refine ⟨_, (get?_eq_some (by simp [hq])).1 h, ?_⟩
    simp [hq]

namespace Workspace

variable {extra : List String}

/-- The places that a walk reaches: no directory on the way is one of foreign packages or of version control, and the
one at the top is neither made from the sources nor left out besides. -/
lemma reaches_iff : reaches extra q = true ↔
    (∀ n ∈ q.dropLast, n ∉ vendorNames) ∧ ∀ n ∈ q.dropLast.head?, n ∉ generatedNames ∧ n ∉ extra := by
  unfold reaches
  rcases q.dropLast with _ | ⟨top, dirs⟩
  · simp
  · simp only [Bool.and_eq_true, Bool.not_eq_true', List.any_eq_false, List.contains_eq_mem, decide_eq_false_iff_not,
      decide_eq_true_eq, List.head?_cons, Option.mem_some_iff, forall_eq']
    exact and_comm

/-- What a walk lists below a root. -/
lemma mem_places :
    q ∈ places t extra p ↔ q ≠ [] ∧ reaches extra q = true ∧ ∃ b, t.get? (p ++ q) = some (.file b) := by
  rw [places, List.mem_mergeSort, List.mem_filter, List.mem_map]
  constructor
  · rintro ⟨⟨⟨r, b⟩, hr, rfl⟩, hreach⟩
    obtain ⟨hne, hb⟩ := mem_filesBelow.1 hr
    exact ⟨hne, hreach, b, hb⟩
  · rintro ⟨hne, hreach, b, hb⟩
    exact ⟨⟨(q, b), mem_filesBelow.2 ⟨hne, hb⟩, rfl⟩, hreach⟩

/-- What is reached is listed as it is when it comes in the order of a walk. -/
lemma places_eq {ps : List Place} (hps : ((t.filesBelow p).map (·.1)).filter (reaches extra) = ps)
    (hwalk : ps.Pairwise (walkBefore · ·)) : places t extra p = ps := by
  rw [places, hps, List.mergeSort_of_pairwise hwalk]

/-- The names below a root lead to what stands there. -/
lemma names_of_get? {e : Entry} (h : t.get? (p ++ q) = some e) : ∀ n ∈ q, Path.Proper n ∧ '/' ∉ n.toList := by
  intro n hn
  obtain ⟨h1, h2, -⟩ := proper_of_isName (isName_of_get? h n (List.mem_append_right p hn))
  exact ⟨h1, h2⟩

variable {root : String}

lemma stat_root (hr : Path.Clear root) (h : t.get? (Path.lexical root) = some .directory) :
    t.stat root = .ok (Path.lexical root, .directory) :=
  stat_eq.2 ⟨place_of_get? hr h (.inl rfl), h⟩

lemma stat_join {e : Entry} (hr : Path.Clear root) (hq : q ≠ []) (h : t.get? (Path.lexical root ++ q) = some e) :
    t.stat (Path.join root (Path.ofComponents q)) = .ok (Path.lexical root ++ q, e) := by
  have hn := names_of_get? h
  obtain ⟨hc, hl⟩ := hr.join hq hn
  rw [← hl] at h ⊢
  refine stat_eq.2 ⟨place_of_get? hc h (.inr ?_), h⟩
  obtain ⟨cs, hcs⟩ := Path.components_join_ofComponents hr hq hn
  rw [hcs, List.getLast?_append_of_ne_nil _ hq, List.getLast?_eq_some_getLast hq]
  intro h0
  exact (hn _ (List.getLast_mem hq)).1.1 (Option.some.inj h0)

/-- A path that belongs to a workspace is clear and has the place that its text names; if that is not the root of all
files, the path ends with a name. -/
lemma resolve_eq_ok {here path p : String} (hh : Path.isAbsolute here = true) (h : resolve here root path = .ok p) :
    Path.Clear p ∧ Path.lexical p = Path.lexical (Path.join (Path.absolute here root) path) ∧
      (Path.lexical p ≠ [] → (Path.components p).getLast? ≠ some "") := by
  unfold resolve at h
  split at h
  · rename_i q hq
    obtain rfl := Except.ok.inj h
    obtain ⟨rfl, hclear, -⟩ := Path.within?_eq_some hh hq
    have habs := Path.isAbsolute_join path (Path.isAbsolute_absolute root hh)
    exact ⟨hclear, Path.lexical_normal habs, Path.getLast?_components_normal habs⟩
  · exact absurd h nofun

/-- A file of a workspace is found and read where its path says. -/
lemma read_resolved {here path p : String} (hh : Path.isAbsolute here = true) (h : resolve here root path = .ok p) :
    (t.isFile p = true ↔ (t.bytes? (Path.lexical p)).isSome) ∧
      ∀ b, t.bytes? (Path.lexical p) = some b → t.read p = .ok b := by
  obtain ⟨hclear, -, hlast⟩ := resolve_eq_ok hh h
  have hfile {b : ByteArray} (hb : t.bytes? (Path.lexical p) = some b) :
      t.stat p = .ok (Path.lexical p, .file b) := by
    have hget := bytes?_eq_some.1 hb
    refine stat_eq.2 ⟨place_of_get? hclear hget (.inr (hlast fun h0 => ?_)), hget⟩
    rw [h0] at hget
    exact absurd hget nofun
  refine ⟨⟨fun hthere => ?_, fun hthere => ?_⟩, fun b hb => ?_⟩
  · obtain ⟨b, -, hget⟩ := read_of_isFile hthere
    rw [bytes?_eq_some.2 hget]
    rfl
  · obtain ⟨b, hb⟩ := Option.isSome_iff_exists.1 hthere
    exact isFile_iff.2 ⟨_, b, hfile hb⟩
  · obtain ⟨b', hread, hget⟩ := read_of_isFile (isFile_iff.2 ⟨_, b, hfile hb⟩)
    rw [hread, Option.some.inj ((bytes?_eq_some.2 hget).symm.trans hb)]

/-- The files that a walk of a workspace comes to. -/
theorem mem_files {f : String} (hr : Path.Clear root) :
    f ∈ files t extra root ↔ ∃ q, q ≠ [] ∧ reaches extra q = true ∧
      (∃ b, t.get? (Path.lexical root ++ q) = some (.file b)) ∧ f = Path.ofComponents q := by
  unfold files
  constructor
  · intro hf
    split at hf
    · rename_i p hp
      obtain ⟨hp, -⟩ := stat_eq.1 hp
      obtain rfl := place_lexical hp
      obtain ⟨q, hq, rfl⟩ := List.mem_map.1 hf
      obtain ⟨hne, hreach, hb⟩ := mem_places.1 hq
      exact ⟨q, hne, hreach, hb, rfl⟩
    · exact absurd hf List.not_mem_nil
  · rintro ⟨q, hne, hreach, ⟨b, hb⟩, rfl⟩
    rw [stat_root hr (get?_above hne hb)]
    exact List.mem_map_of_mem (mem_places.2 ⟨hne, hreach, b, hb⟩)

end Workspace

end Ratchet
