import Ratchet.Proofs.Tree

/-!
What stands directly below a place.

A name below a clear path leads to what stands at its place, and the names at a place are those of its
entries, each once.
-/

namespace Ratchet.Tree

variable {t t' : Tree} {p q : Place} {e : Entry} {dir n : String}

/-- A clear path to something has no character zero. -/
lemma zero_notMem {path : String} (hc : Path.Clear path) (h : t.get? (Path.lexical path) = some e) :
    '\x00' ∉ path.toList := by
  rw [hc.lexical] at h
  have hall : ∀ l ∈ Text.splitAtChar '/' path.toList, '\x00' ∉ l := by
    intro l hl hz
    have hmem : String.ofList l ∈ Path.components path := List.mem_map_of_mem hl
    have hne : String.ofList l ≠ "" := by
      intro h0
      rw [← String.toList_inj, String.toList_ofList] at h0
      rw [h0] at hz
      exact absurd hz List.not_mem_nil
    have hname := isName_of_get? h _ (List.mem_filter.2 ⟨hmem, by simpa using hne⟩)
    exact (proper_of_isName hname).2.2.1 (by rwa [String.toList_ofList])
  have hjoin : ∀ ls : List (List Char), (∀ l ∈ ls, '\x00' ∉ l) → '\x00' ∉ Text.joinWith ['/'] ls := by
    intro ls
    induction ls with
    | nil => exact fun _ => List.not_mem_nil
    | cons l ls ih =>
      intro hls
      cases ls with
      | nil => exact hls l List.mem_cons_self
      | cons l' ls =>
        have hl := hls l List.mem_cons_self
        have hrest := ih fun m hm => hls m (List.mem_cons_of_mem l hm)
        simp [Text.joinWith, hl, hrest]
  rw [← Text.joinWith_splitAtChar '/' path.toList]
  exact hjoin _ hall

/-- A name leads one step down from a directory, whether or not something stands there. -/
lemma follow_name (hdir : t.get? p = some .directory) (hn : isName n = true) : t.follow p [n] = .ok (p ++ [n]) := by
  obtain ⟨⟨h1, h2, h3⟩, -, -, hsize⟩ := proper_of_isName hn
  rw [follow_cons, hdir]
  dsimp only
  rw [if_neg (by simp [h1, h2]), if_neg (by simp [h3]), if_neg (by omega)]
  rfl

/-- A relative path behind the path of a directory is followed from there. -/
lemma place_join {f : String} (hdir : t.stat dir = .ok (p, .directory)) (hrel : Path.isAbsolute f = false) :
    t.place (Path.join dir f) = t.follow p (Path.components f) := by
  obtain ⟨hplace, -⟩ := stat_eq.1 hdir
  obtain ⟨hne, hfollow⟩ := place_eq hplace
  obtain ⟨cs, hjoin, hcs⟩ := Path.components_join hne hrel
  -- A slash at the end of the directory's path leads to the directory again.
  have hbase : t.follow [] cs = .ok p := by
    rcases hcs with h | h
    · rwa [← h]
    · rw [h, follow_append] at hfollow
      rcases hr : t.follow [] cs with f | r
      · rw [hr] at hfollow
        exact absurd hfollow nofun
      · rw [hr] at hfollow
        obtain ⟨-, ⟨-, hstep⟩ | ⟨hup, -⟩ | ⟨⟨hproper, -⟩, -⟩⟩ := follow_cons_cases hfollow
        · exact hstep
        · exact absurd hup (by decide)
        · exact absurd rfl hproper
  have hnonempty : Path.join dir f ≠ "" := by
    rw [Path.join, if_neg (by simp [hrel])]
    split <;> simp [hne]
  rw [place, if_neg (by simpa using hnonempty), hjoin, follow_append, hbase]
  rfl

/-- A name behind the path of a directory leads one step down from it. -/
lemma place_child (hdir : t.stat dir = .ok (p, .directory)) (hn : isName n = true) :
    t.place (Path.join dir n) = .ok (p ++ [n]) := by
  obtain ⟨-, hs, -⟩ := proper_of_isName hn
  rw [place_join hdir (Path.isAbsolute_of_slashless hs), Path.components_of_slashless hs]
  exact follow_name (stat_eq.1 hdir).2 hn

/-- A name below a clear path leads to what stands there. -/
lemma stat_child (hc : Path.Clear dir) (hn : Path.Proper n) (hs : '/' ∉ n.toList)
    (h : t.get? (Path.lexical dir ++ [n]) = some e) :
    t.stat (Path.join dir n) = .ok (Path.lexical dir ++ [n], e) := by
  obtain ⟨hclear, hl⟩ := hc.child hn hs
  rw [← hl] at h ⊢
  refine stat_eq.2 ⟨place_of_get? hclear h (.inr ?_), h⟩
  obtain ⟨cs, hcs⟩ := Path.components_join_ofComponents hc (List.cons_ne_nil n []) fun m hm => by
    rw [List.mem_singleton.1 hm]
    exact ⟨hn, hs⟩
  rw [Path.ofComponents_singleton] at hcs
  rw [hcs, List.getLast?_concat]
  exact fun h0 => hn.1 (Option.some.inj h0)

lemma isFile_child (hc : Path.Clear dir) (hn : Path.Proper n) (hs : '/' ∉ n.toList) :
    t.isFile (Path.join dir n) = (t.bytes? (Path.lexical dir ++ [n])).isSome := by
  rw [Bool.eq_iff_iff, isFile_iff, Option.isSome_iff_exists]
  constructor
  · rintro ⟨p, b, h⟩
    obtain ⟨hp, hb⟩ := stat_eq.1 h
    obtain rfl := place_lexical hp
    rw [(hc.child hn hs).2] at hb
    exact ⟨b, bytes?_eq_some.2 hb⟩
  · rintro ⟨b, hb⟩
    exact ⟨_, b, stat_child hc hn hs (bytes?_eq_some.1 hb)⟩

lemma read_child {b : ByteArray} (hc : Path.Clear dir) (hn : Path.Proper n) (hs : '/' ∉ n.toList)
    (h : t.bytes? (Path.lexical dir ++ [n]) = some b) : t.read (Path.join dir n) = .ok b := by
  have hb := bytes?_eq_some.1 h
  have hb' := hb
  rw [← (hc.child hn hs).2] at hb'
  exact read_eq_ok.2 ⟨zero_notMem (hc.child hn hs).1 hb', _, stat_child hc hn hs hb⟩

/-- A directory below a clear path can be removed. -/
lemma removeAll_child (hc : Path.Clear dir) (hn : Path.Proper n) (hs : '/' ∉ n.toList)
    (h : t.get? (Path.lexical dir ++ [n]) = some .directory) :
    t.removeAll (Path.join dir n) = .ok (t.erase (Path.lexical dir ++ [n])) := by
  have h' := h
  rw [← (hc.child hn hs).2] at h'
  rw [removeAll, about_eq_ok]
  refine ⟨zero_notMem (hc.child hn hs).1 h', ?_⟩
  simp only [stat_child hc hn hs h]
  rfl

/-- A new directory is made where nothing stands. -/
lemma newDirectories_ok (hd : Path.Clear dir) (hn : Path.Proper n)
    (hs : '/' ∉ n.toList) (h : t.newDirectories (Path.join dir n) = .ok t') :
    t.get? (Path.lexical dir ++ [n]) = none ∧ t'.get? (Path.lexical dir ++ [n]) = some .directory := by
  have hname : (Path.splitLast (Path.join dir n)).2 = n := Path.name_join hd.absolute hs
  have hplace := (hd.child hn hs).2
  have hmake : ∀ {u : Tree}, Grown t u → (false = true ∧ t' = u) ∨ u.makeDirectory (Path.join dir n) = .ok t' →
      t.get? (Path.lexical dir ++ [n]) = none ∧ t'.get? (Path.lexical dir ++ [n]) = some .directory := by
    intro u hg hu
    have hm := hu.resolve_left fun hc => Bool.false_ne_true hc.1
    obtain ⟨hnone, hafter⟩ := makeDirectory_ok hm
    rw [hplace] at hnone hafter
    refine ⟨?_, by rw [hafter, if_pos rfl]⟩
    rcases hg (Path.lexical dir ++ [n]) with heq | ⟨hnone', -⟩
    · rw [← heq, hnone]
    · exact hnone'
  have hdot : (n == ".") = false := by simpa using hn.2.1
  simp only [newDirectories, makeDirectories, bind, Except.bind, pure, Except.pure, hname,
    show n.isEmpty = false by simpa using hn.1, Bool.false_eq_true, if_false, hdot] at h
  split at h
  · split at h
    · rename_i u hu
      exact hmake (makeDirectories_grown hu) (again_or_makeDirectory h)
    · split at h
      · exact hmake (.refl t) (again_or_makeDirectory h)
      · cases h
  · exact hmake (.refl t) (again_or_makeDirectory h)

lemma hasFile_iff : t.hasFile p = true ↔ ∃ b, t.get? p = some (.file b) := by
  rw [hasFile]
  split
  · rename_i b hb
    exact iff_of_true rfl ⟨b, hb⟩
  · rename_i hnone
    exact iff_of_false Bool.false_ne_true fun ⟨b, hb⟩ => hnone b hb

/-! ### Names -/

lemma mem_namesAt : n ∈ t.namesAt p ↔ ∃ e, t.get? (p ++ [n]) = some e := by
  rw [namesAt, List.mem_mergeSort, List.mem_filterMap]
  constructor
  · rintro ⟨⟨q, e⟩, hq, h⟩
    simp only [Option.ite_none_right_eq_some, Bool.and_eq_true, List.isPrefixOf_iff_prefix, beq_iff_eq] at h
    obtain ⟨⟨⟨r, rfl⟩, hlen⟩, hlast⟩ := h
    obtain ⟨m, rfl⟩ : ∃ m, r = [m] := List.length_eq_one_iff.1 (by simpa using hlen)
    rw [List.getLast?_concat] at hlast
    obtain rfl := Option.some.inj hlast
    exact ⟨e, (get?_eq_some (by simp)).2 hq⟩
  · rintro ⟨e, h⟩
    refine ⟨(p ++ [n], e), (get?_eq_some (by simp)).1 h, ?_⟩
    simp

/-- A place with entries is a directory. -/
lemma get?_of_namesAt (h : n ∈ t.namesAt p) : t.get? p = some .directory := by
  obtain ⟨e, he⟩ := mem_namesAt.1 h
  exact get?_above (List.cons_ne_nil n []) he

lemma isName_of_namesAt (h : n ∈ t.namesAt p) : isName n = true := by
  obtain ⟨e, he⟩ := mem_namesAt.1 h
  exact isName_of_get? he n (by simp)

/-- The names at a place are listed once. -/
lemma nodup_namesAt (t : Tree) (p : Place) : (t.namesAt p).Nodup := by
  rw [namesAt, List.nodup_mergeSort]
  have hes := List.pairwise_map.1 (List.nodup_iff_pairwise_ne.1 t.sound.distinct)
  rw [List.nodup_iff_pairwise_ne]
  refine hes.filterMap _ fun x y hxy a ha b hb hab => hxy ?_
  simp only [Option.ite_none_right_eq_some, Bool.and_eq_true, List.isPrefixOf_iff_prefix, beq_iff_eq] at ha hb
  obtain ⟨⟨⟨r, hr⟩, hlen⟩, hlast⟩ := ha
  obtain ⟨⟨⟨r', hr'⟩, hlen'⟩, hlast'⟩ := hb
  rw [← hr] at hlen hlast
  rw [← hr'] at hlen' hlast'
  obtain ⟨m, rfl⟩ : ∃ m, r = [m] := List.length_eq_one_iff.1 (by simpa using hlen)
  obtain ⟨m', rfl⟩ : ∃ m, r' = [m] := List.length_eq_one_iff.1 (by simpa using hlen')
  rw [List.getLast?_concat] at hlast hlast'
  obtain rfl := Option.some.inj hlast
  obtain rfl := Option.some.inj hlast'
  rw [← hr, ← hr', hab]

/-! ### Moving a directory -/

/-- A directory is moved to a place where nothing was but maybe an empty directory, and there stands what stood in it. -/
lemma rename_directory {source target : String} (h : t.rename source target = .ok t')
    (hs : t.get? (Path.lexical source) = some .directory) (ht : Path.lexical target ≠ [])
    (hn : ∀ n ∈ Path.lexical target, isName n = true) (hpq : ¬ Path.lexical source <+: Path.lexical target) :
    t.bytes? (Path.lexical target) = none ∧
      (∀ r, r ≠ [] → t.get? (Path.lexical target ++ r) = none) ∧
      (∀ r, t'.get? (Path.lexical target ++ r) = t.get? (Path.lexical source ++ r)) ∧
      ∀ q, ¬ Path.lexical target <+: q → t'.get? q = if Path.lexical source <+: q then none else t.get? q := by
  obtain ⟨e, he, -, hparent, hempty, hfree, rfl⟩ := rename_ok h
  obtain rfl := Option.some.inj (he.symm.trans hs)
  have hm : Entries.moves t.entries (Path.lexical source) (Path.lexical target) = true :=
    Entries.moves_iff.2 ⟨ht, hn, fun h0 => (get?_eq_some h0).1 hparent, fun h => absurd h hpq⟩
  refine ⟨hfree rfl, fun r hr => ?_, get?_move_below hm, fun q => get?_move_other hm⟩
  obtain ⟨n, r, rfl⟩ := List.exists_cons_of_ne_nil hr
  rw [Option.eq_none_iff_forall_ne_some]
  intro b hb
  -- Something below the target would be a name there.
  have hdir := get?_above (List.cons_ne_nil n r) hb
  rw [List.append_cons] at hb
  have hname : ∃ e, t.get? (Path.lexical target ++ [n]) = some e := by
    rcases r with _ | ⟨m, r⟩
    · exact ⟨_, by rwa [List.append_nil] at hb⟩
    · exact ⟨_, get?_above (List.cons_ne_nil m r) hb⟩
  have hmem := mem_namesAt.2 hname
  rw [hempty hdir] at hmem
  exact absurd hmem List.not_mem_nil

end Ratchet.Tree
