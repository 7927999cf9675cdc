import Ratchet.Proofs.Tree.Children

/-!
Operations that are granted.

The system refuses nothing about a name directly below a directory: where nothing stands under the name, a directory can
be made there, with or without those that lead to it, a file can be written or copied there, and a directory beside it
can be moved there.
-/

namespace Ratchet.Tree

variable {t : Tree} {dir m n path : String} {p : Place} {c : ByteArray}

/-! ### Paths to names -/

/-- A clear path with a name leads to its place below a directory, whether or not something stands there. -/
lemma place_named (hc : Path.Clear path) (hname : Path.name path ≠ "") (hl : Path.lexical path = p ++ [n])
    (hn : isName n = true) (hd : t.get? p = some .directory) : t.place path = .ok (p ++ [n]) := by
  obtain ⟨cs, hcs⟩ := Path.components_eq_name path
  rw [hc.lexical, hcs, List.filter_append, List.filter_cons_of_pos (by simpa using hname), List.filter_nil] at hl
  obtain ⟨hway, hlast⟩ := List.append_singleton_inj.1 hl
  have hfollow : t.follow [] cs = .ok p := by
    rw [← hway] at hd ⊢
    refine follow_of_get? (fun m hm => ?_) hd (.inl rfl)
    by_cases h0 : m = ""
    · exact .inl h0
    · exact .inr (isName_of_get? hd m (List.mem_filter.2 ⟨hm, by simpa using h0⟩))
  rw [place, if_neg (by simpa using hc.ne_empty), hcs, follow_append, hfollow, hlast]
  exact follow_name hd hn

/-- A name below a clear path to a directory leads to its place, whether or not something stands there. -/
lemma place_below (hc : Path.Clear dir) (hn : isName n = true) (hd : t.get? (Path.lexical dir) = some .directory) :
    t.place (Path.join dir n) = .ok (Path.lexical dir ++ [n]) :=
  place_child (stat_eq.2 ⟨place_of_get? hc hd (.inl rfl), hd⟩) hn

/-- Anything may be set at a name below a directory, unless it is a file and a directory stands there. -/
lemma admits_child {e : Entry} (hn : isName n = true) (hd : t.get? p = some .directory)
    (h : e ≠ .directory → t.get? (p ++ [n]) ≠ some .directory) : Entries.admits t.entries (p ++ [n]) e = true := by
  refine admits_of (by simp) (fun m hm => ?_) (by simpa using hd) h
  rcases List.mem_append.1 hm with hm | hm
  · exact isName_of_get? hd m hm
  · rwa [List.mem_singleton.1 hm]

/-- What is set at a name below a directory where nothing stands is set there and nowhere else. -/
lemma get?_put_child {e : Entry} (hn : isName n = true) (hd : t.get? p = some .directory) (h : t.get? (p ++ [n]) = none)
    (q : Place) : (t.put (p ++ [n]) e).get? q = if q = p ++ [n] then some e else t.get? q :=
  get?_put (admits_child hn hd fun _ => by simp [h]) q

/-- A file that is set at a name below a directory is set there and nowhere else. -/
lemma get?_put_file (hn : isName n = true) (hd : t.get? p = some .directory) (h : t.get? (p ++ [n]) ≠ some .directory)
    (q : Place) : (t.put (p ++ [n]) (.file c)).get? q = if q = p ++ [n] then some (.file c) else t.get? q :=
  get?_put (admits_child hn hd fun _ => h) q

/-- A clear path to a name below a directory has no character zero. -/
lemma zero_notMem_named (hc : Path.Clear path) (hl : Path.lexical path = p ++ [n]) (hn : isName n = true)
    (hd : t.get? p = some .directory) : '\x00' ∉ path.toList := by
  rcases h : t.get? (p ++ [n]) with _ | e
  · refine zero_notMem (t := t.put (p ++ [n]) .directory) (e := .directory) hc ?_
    rw [hl, get?_put_child hn hd h, if_pos rfl]
  · exact zero_notMem hc (hl ▸ h)

lemma zero_notMem_child (hc : Path.Clear dir) (hn : isName n = true)
    (hd : t.get? (Path.lexical dir) = some .directory) : '\x00' ∉ (Path.join dir n).toList := by
  obtain ⟨hproper, hslash, -⟩ := proper_of_isName hn
  obtain ⟨hclear, hl⟩ := hc.child hproper hslash
  exact zero_notMem_named hclear hl hn hd

/-! ### Directories -/

lemma pathExists_of_directory (hc : Path.Clear path) (hd : t.get? (Path.lexical path) = some .directory) :
    t.pathExists path = true := by
  rw [pathExists, stat_eq.2 ⟨place_of_get? hc hd (.inl rfl), hd⟩]
  rfl

/-- The directory above a directory is there. -/
lemma directory_parent (hc : Path.Clear path) (hd : t.get? (Path.lexical path) = some .directory) :
    Path.Clear (Path.parent path) ∧ t.get? (Path.lexical (Path.parent path)) = some .directory := by
  obtain ⟨hparent, ns, hns, -⟩ := Path.clear_parent hc
  refine ⟨hparent, ?_⟩
  rw [hns] at hd
  by_cases h0 : ns = []
  · rw [h0, List.append_nil] at hd
    exact hd
  · exact get?_above h0 hd

/-- What leads to a name below a directory is there. -/
lemma directory_above (hc : Path.Clear path) (hname : Path.name path ≠ "") (hl : Path.lexical path = p ++ [n])
    (hd : t.get? p = some .directory) :
    Path.Clear (Path.parent path) ∧ t.get? (Path.lexical (Path.parent path)) = some .directory := by
  obtain ⟨hparent, ns, hns, hlast⟩ := Path.clear_parent hc
  refine ⟨hparent, ?_⟩
  obtain ⟨ms, m, rfl⟩ := (List.eq_nil_or_concat' ns).resolve_left (hlast hname)
  rw [hl, ← List.append_assoc] at hns
  have hway := (List.append_singleton_inj.1 hns).1
  rw [hway] at hd
  by_cases hms : ms = []
  · rw [hms, List.append_nil] at hd
    exact hd
  · exact get?_above hms hd

/-- A name below a clear path is the name of a clear path. -/
lemma name_child (hc : Path.Clear dir) (hn : isName n = true) :
    Path.Clear (Path.join dir n) ∧ Path.name (Path.join dir n) ≠ "" ∧
      Path.lexical (Path.join dir n) = Path.lexical dir ++ [n] := by
  obtain ⟨hproper, hslash, -⟩ := proper_of_isName hn
  obtain ⟨hclear, hl⟩ := hc.child hproper hslash
  refine ⟨hclear, ?_, hl⟩
  rw [Path.name_join hc.absolute hslash]
  exact hproper.1

/-- Nothing is made where a directory stands. -/
lemma ensureDirectories_there (hc : Path.Clear path) (hd : t.get? (Path.lexical path) = some .directory) :
    t.ensureDirectories path = .ok t := by
  obtain ⟨hparent, hparent'⟩ := directory_parent hc hd
  obtain ⟨habove, habove'⟩ := directory_parent hparent hparent'
  have hplace := place_of_get? hc hd (.inl rfl)
  have hhead : t.pathExists (if (Path.splitLast path).2.isEmpty = true then Path.splitLast (Path.splitLast path).1
      else ((Path.splitLast path).1, (Path.splitLast path).2)).1 = true := by
    split
    · exact pathExists_of_directory habove habove'
    · exact pathExists_of_directory hparent hparent'
  have hmake : t.makeDirectory path = .error (.system .exists path) := by
    unfold makeDirectory about
    rw [if_neg (by simpa using zero_notMem hc hd), hplace]
    simp only [bind, Except.bind, hd]
  have hdirectory : t.isDirectory path = true := isDirectory_iff.2 ⟨_, stat_eq.2 ⟨hplace, hd⟩⟩
  simp only [ensureDirectories, makeDirectories, bind, Except.bind, hhead, Bool.not_true, Bool.and_false,
    Bool.false_eq_true, if_false, hmake, hdirectory]
  rfl

/-- A directory is made at a path to a name below another one. -/
lemma makeDirectory_named (hc : Path.Clear path) (hname : Path.name path ≠ "") (hl : Path.lexical path = p ++ [n])
    (hn : isName n = true) (hd : t.get? p = some .directory) (h : t.get? (p ++ [n]) = none) :
    t.makeDirectory path = .ok (t.put (p ++ [n]) .directory) := by
  rw [makeDirectory, about_eq_ok]
  refine ⟨zero_notMem_named hc hl hn hd, ?_⟩
  rw [place_named hc hname hl hn hd]
  simp only [bind, Except.bind, h, List.dropLast_concat, hd]
  rfl

/-- A directory is made at a path to a name below another one, with all that lead to it. -/
lemma makeDirectories_named {again : Bool} {fuel : Nat} (hc : Path.Clear path) (hname : Path.name path ≠ "")
    (hl : Path.lexical path = p ++ [n]) (hn : isName n = true) (hd : t.get? p = some .directory)
    (h : t.get? (p ++ [n]) = none) :
    makeDirectories again (fuel + 1) path t = .ok (t.put (p ++ [n]) .directory) := by
  obtain ⟨habove, habove'⟩ := directory_above hc hname hl hd
  have hhead : t.pathExists (Path.splitLast path).1 = true := pathExists_of_directory habove habove'
  have htail : (Path.splitLast path).2.isEmpty = false := by
    rw [Bool.eq_false_iff]
    simpa [Path.name] using hname
  simp only [makeDirectories, bind, Except.bind, htail, hhead, makeDirectory_named hc hname hl hn hd h, Bool.not_true,
    Bool.and_false, Bool.false_eq_true, if_false]
  rfl

lemma ensureDirectories_named (hc : Path.Clear path) (hname : Path.name path ≠ "") (hl : Path.lexical path = p ++ [n])
    (hn : isName n = true) (hd : t.get? p = some .directory) (h : t.get? (p ++ [n]) = none) :
    t.ensureDirectories path = .ok (t.put (p ++ [n]) .directory) :=
  makeDirectories_named hc hname hl hn hd h

lemma ensureDirectories_child (hc : Path.Clear dir) (hn : isName n = true)
    (hd : t.get? (Path.lexical dir) = some .directory) (h : t.get? (Path.lexical dir ++ [n]) = none) :
    t.ensureDirectories (Path.join dir n) = .ok (t.put (Path.lexical dir ++ [n]) .directory) := by
  obtain ⟨hclear, hname, hl⟩ := name_child hc hn
  exact ensureDirectories_named hclear hname hl hn hd h

/-- A directory is made in one that is made for it below another one. -/
lemma makeDirectories_below {again : Bool} {fuel : Nat} (hc : Path.Clear dir) (hm : isName m = true)
    (hn : isName n = true) (hd : t.get? (Path.lexical dir) = some .directory)
    (h : t.get? (Path.lexical dir ++ [m]) = none) :
    makeDirectories again (fuel + 2) (Path.join (Path.join dir m) n) t =
      .ok ((t.put (Path.lexical dir ++ [m]) .directory).put (Path.lexical dir ++ [m] ++ [n]) .directory) := by
  obtain ⟨hproper, hslash, -⟩ := proper_of_isName hn
  obtain ⟨hclear, hmname, hl⟩ := name_child hc hm
  obtain ⟨hclear', hname, hl'⟩ := name_child hclear hn
  rw [hl] at hl'
  have hput := get?_put_child (e := .directory) hm hd h
  have hhead : (Path.splitLast (Path.join (Path.join dir m) n)).1 = Path.join dir m :=
    Path.parent_join hclear.ne_empty (Path.getLast?_of_name hmname) hslash
  have htail : (Path.splitLast (Path.join (Path.join dir m) n)).2 = n := Path.name_join hclear.absolute hslash
  have habsent : t.pathExists (Path.join dir m) = false := by
    rw [pathExists, stat, place_below hc hm hd]
    simp only [bind, Except.bind, h]
    rfl
  have hmake : (t.put (Path.lexical dir ++ [m]) .directory).makeDirectory (Path.join (Path.join dir m) n) =
      .ok ((t.put (Path.lexical dir ++ [m]) .directory).put (Path.lexical dir ++ [m] ++ [n]) .directory) := by
    refine makeDirectory_named hclear' hname hl' hn ((hput _).trans (if_pos rfl)) ?_
    rw [hput, if_neg (by simp)]
    exact get?_below_none h (List.prefix_append _ _)
  rw [makeDirectories]
  simp only [bind, Except.bind, htail, hhead, habsent, show n.isEmpty = false by simpa using hproper.1,
    show (Path.join dir m).isEmpty = false by simpa using hclear.ne_empty, makeDirectories_named hclear hmname hl hm hd h,
    show (n == ".") = false by simpa using hproper.2.1, hmake, Bool.not_false, Bool.and_true, Bool.false_eq_true,
    if_false, if_true]
  rfl

/-- There is a character in a path below another one, so that both directories can be made. -/
lemma exists_length_child (hc : Path.Clear dir) (hn : isName n = true) : ∃ k, (Path.join dir n).length = k + 1 :=
  Nat.exists_eq_add_one.2 (Nat.pos_of_ne_zero (by simpa using (name_child hc hn).1.ne_empty))

lemma newDirectories_below (hc : Path.Clear dir) (hm : isName m = true) (hn : isName n = true)
    (hd : t.get? (Path.lexical dir) = some .directory) (h : t.get? (Path.lexical dir ++ [m]) = none) :
    t.newDirectories (Path.join (Path.join dir m) n) =
      .ok ((t.put (Path.lexical dir ++ [m]) .directory).put (Path.lexical dir ++ [m] ++ [n]) .directory) := by
  obtain ⟨k, hk⟩ := exists_length_child (name_child hc hm).1 hn
  rw [newDirectories, hk]
  exact makeDirectories_below hc hm hn hd h

lemma ensureDirectories_below (hc : Path.Clear dir) (hm : isName m = true) (hn : isName n = true)
    (hd : t.get? (Path.lexical dir) = some .directory) (h : t.get? (Path.lexical dir ++ [m]) = none) :
    t.ensureDirectories (Path.join (Path.join dir m) n) =
      .ok ((t.put (Path.lexical dir ++ [m]) .directory).put (Path.lexical dir ++ [m] ++ [n]) .directory) := by
  obtain ⟨k, hk⟩ := exists_length_child (name_child hc hm).1 hn
  rw [ensureDirectories, hk]
  exact makeDirectories_below hc hm hn hd h

/-- A directory is moved to a name beside its own. -/
lemma rename_child (hc : Path.Clear dir) (hm : isName m = true) (hn : isName n = true) (hne : m ≠ n)
    (hthere : t.get? (Path.lexical dir ++ [m]) = some .directory) (h : t.get? (Path.lexical dir ++ [n]) = none) :
    t.rename (Path.join dir m) (Path.join dir n) = .ok (t.move (Path.lexical dir ++ [m]) (Path.lexical dir ++ [n])) := by
  obtain ⟨hmproper, hmslash, -⟩ := proper_of_isName hm
  have hd : t.get? (Path.lexical dir) = some .directory := get?_above (List.cons_ne_nil m []) hthere
  have hapart : (Path.lexical dir ++ [m] != Path.lexical dir ++ [n] &&
      (Path.lexical dir ++ [m]).isPrefixOf (Path.lexical dir ++ [n])) = false := by
    rw [Bool.and_eq_false_iff, Bool.eq_false_iff (b := List.isPrefixOf _ _), ne_eq, List.isPrefixOf_iff_prefix,
      List.prefix_append_right_inj]
    exact .inr (by simpa using hne)
  simp only [rename, bind, Except.bind, stat_child hc hmproper hmslash hthere, place_below hc hn hd, List.dropLast_concat,
    hd, h, hapart, Bool.false_eq_true, if_false]
  rfl

/-- A directory takes the place of a file, and nothing else changes. -/
lemma get?_replaced (hn : isName n = true) (h : t.get? (p ++ [n]) = some (.file c)) (q : Place) :
    ((t.erase (p ++ [n])).put (p ++ [n]) .directory).get? q = if q = p ++ [n] then some .directory else t.get? q := by
  have hd : (t.erase (p ++ [n])).get? p = some .directory := by
    rw [get?_erase, if_neg fun hp => absurd hp.1.length_le (by simp)]
    exact get?_above (List.cons_ne_nil n []) h
  rw [get?_put_child hn hd (by rw [get?_erase, if_pos ⟨List.prefix_rfl, by simp⟩]), get?_erase]
  by_cases hq : q = p ++ [n]
  · rw [if_pos hq, if_pos hq]
  · rw [if_neg hq, if_neg hq]
    split
    · rename_i hbelow
      exact (get?_below_file h hbelow.1 hq).symm
    · rfl

/-! ### Files -/

/-- A file is read at a path to its name. -/
lemma read_named (hc : Path.Clear path) (hname : Path.name path ≠ "") (hl : Path.lexical path = p ++ [n])
    (h : t.get? (p ++ [n]) = some (.file c)) : t.read path = .ok c := by
  have hplace := place_named hc hname hl (isName_of_get? h n (by simp)) (get?_above (List.cons_ne_nil n []) h)
  exact read_eq_ok.2 ⟨zero_notMem hc (hl ▸ h), _, stat_eq.2 ⟨hplace, h⟩⟩

/-- A file is written at a path to a name below a directory, unless a directory stands there. -/
lemma write_named (hz : '\x00' ∉ path.toList) (hplace : t.place path = .ok (p ++ [n])) (hd : t.get? p = some .directory)
    (h : t.get? (p ++ [n]) ≠ some .directory) : t.write path c = .ok (t.put (p ++ [n]) (.file c)) := by
  have hwritable : t.writable path = .ok (p ++ [n]) := by
    simp only [writable, hplace, bind, Except.bind, List.dropLast_concat, hd]
    rcases hthere : t.get? (p ++ [n]) with _ | _ | _
    · rfl
    · rfl
    · exact absurd hthere h
  rw [write, about_eq_ok]
  refine ⟨hz, ?_⟩
  rw [hwritable]
  rfl

/-- A file is copied to a path to a name below a directory, unless it or a directory stands there. -/
lemma copy_named {source : String} (hz : '\x00' ∉ path.toList) (hplace : t.place path = .ok (p ++ [n]))
    (hd : t.get? p = some .directory) (h : t.get? (p ++ [n]) ≠ some .directory)
    (hsource : ∀ e, t.stat source ≠ .ok (p ++ [n], e)) (hread : t.read source = .ok c) :
    t.copy source path = .ok (t.put (p ++ [n]) (.file c)) := by
  have hdirectory : t.isDirectory path = false := by
    rw [Bool.eq_false_iff]
    intro hdir
    obtain ⟨q, hq⟩ := isDirectory_iff.1 hdir
    obtain ⟨hq, hentry⟩ := stat_eq.1 hq
    rw [hplace] at hq
    obtain rfl := Except.ok.inj hq
    exact h hentry
  simp only [copy, hdirectory, Bool.false_eq_true, if_false, hread, bind, Except.bind]
  rw [if_neg]
  · exact write_named hz hplace hd h
  · split
    · rename_i q e q' e' hq hq'
      rw [beq_iff_eq]
      rintro rfl
      obtain ⟨hq', -⟩ := stat_eq.1 hq'
      rw [hplace] at hq'
      obtain rfl := Except.ok.inj hq'
      exact hsource e hq
    · exact Bool.false_ne_true

/-- Where nothing stands no path leads to anything. -/
lemma stat_ne (h : t.get? p = none) (path : String) (e : Entry) : t.stat path ≠ .ok (p, e) := fun hs => by
  rw [(stat_eq.1 hs).2] at h
  cases h

lemma copy_child {source : String} (hc : Path.Clear dir) (hn : isName n = true)
    (hd : t.get? (Path.lexical dir) = some .directory) (h : t.get? (Path.lexical dir ++ [n]) = none)
    (hread : t.read source = .ok c) :
    t.copy source (Path.join dir n) = .ok (t.put (Path.lexical dir ++ [n]) (.file c)) :=
  copy_named (zero_notMem_child hc hn hd) (place_below hc hn hd) hd (by simp [h]) (stat_ne h source) hread

/-- A directory that stands where a file is copied takes the file in. -/
lemma copy_into {source : String} (hc : Path.Clear path) (hn : isName (Path.name source) = true)
    (hd : t.get? (Path.lexical path) = some .directory) (h : t.get? (Path.lexical path ++ [Path.name source]) = none)
    (hread : t.read source = .ok c) :
    t.copy source path = .ok (t.put (Path.lexical path ++ [Path.name source]) (.file c)) := by
  have hdirectory : t.isDirectory path = true := isDirectory_iff.2 ⟨_, stat_eq.2 ⟨place_of_get? hc hd (.inl rfl), hd⟩⟩
  have hbelow : t.isDirectory (Path.join path (Path.name source)) = false := by
    rw [Bool.eq_false_iff]
    intro hdir
    obtain ⟨q, hq⟩ := isDirectory_iff.1 hdir
    obtain ⟨hplace, hq⟩ := stat_eq.1 hq
    rw [place_below hc hn hd] at hplace
    rw [← Except.ok.inj hplace, h] at hq
    cases hq
  rw [← copy_child hc hn hd h hread]
  simp only [copy, hdirectory, hbelow, if_true, Bool.false_eq_true, if_false]

end Ratchet.Tree
