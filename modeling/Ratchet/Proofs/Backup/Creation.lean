import Ratchet.Proofs.Backup.Store

/-!
Making backups.

A backup is put together from copies, and each copy has the bytes that its file had: files outside the staging
directory stay as they are while copies are made, and what lies in there was copied. A backup that was made
stands in the archive after those that were there, with the next sequence number.
-/

namespace Ratchet.Archive

open Act

variable {a : Archive} {w w' : World} {b : Backup} {bs : List Backup}

/-! ### Copying in -/

/-- A path in a directory has the place that its text names. -/
lemma resolve_lexical {here root path p : String} (hh : Path.isAbsolute here = true) (hr : Path.Clear root)
    (h : Workspace.resolve here root path = .ok p) :
    Path.Clear p ∧ Path.lexical p = Path.lexical (Path.join root path) ∧ Path.lexical root <+: Path.lexical p := by
  obtain ⟨hp, hbelow⟩ := resolve_ok hh h
  rw [Path.lexical_absolute hr.absolute] at hbelow
  unfold Workspace.resolve at h
  split at h
  · rename_i q hq
    obtain rfl := Except.ok.inj h
    obtain ⟨rfl, -, -⟩ := Path.within?_eq_some hh hq
    refine ⟨hp, ?_, hbelow⟩
    have habs : Path.isAbsolute (Path.absolute here root) = true := Path.isAbsolute_absolute root hh
    rw [Path.lexical_normal (Path.isAbsolute_join path habs)]
    by_cases hpath : Path.isAbsolute path = true
    · rw [Path.join, Path.join, if_pos hpath, if_pos hpath]
    · have hrel : Path.isAbsolute path = false := by simpa using hpath
      rw [Path.lexical_join (Path.clear_absolute root hh).ne_empty hrel, Path.lexical_join hr.ne_empty hrel,
        Path.lexical_absolute hr.absolute]
  · cases h

/-- Copying one file in, and then the others. -/
lemma copyIn_cons {dir f : String} {fs : List String} {ds : List (String × String)}
    (h : runOn w (a.copyIn dir (f :: fs)) = (.ok ds, w')) :
    ∃ source target t t' c ds', Workspace.resolve w.here a.workspace f = .ok source ∧
      Workspace.resolve w.here dir f = .ok target ∧
      w.tree.ensureDirectories (w.located (Path.parent target)) = .ok t ∧ t.copy source target = .ok t' ∧
      t'.read (w.located target) = .ok c ∧ ds = (f, Digest.sha256 c) :: ds' ∧
      runOn { w with tree := t' } (a.copyIn dir fs) = (.ok ds', w') := by
  unfold copyIn at h
  rw [runOn_bind, runOn_get] at h
  dsimp only at h
  obtain ⟨source, hs, h⟩ := of_ofResult_bind_ok h
  obtain ⟨target, ht, h⟩ := of_ofResult_bind_ok h
  obtain ⟨t, hd, h⟩ := of_ensureDirectories_bind_ok h
  obtain ⟨t', hc, h⟩ := of_edit_bind_ok h
  obtain ⟨c, hread, h⟩ := of_readBytes_bind_ok h
  obtain ⟨ds', u, hrest, h⟩ := of_bind_ok h
  rw [runOn_pure] at h
  obtain ⟨hds, rfl⟩ := Prod.mk.inj h
  exact ⟨source, target, t, t', c, ds', hs, ht, hd, hc, hread, (Except.ok.inj hds).symm, hrest⟩

/-- Files that were copied in lie in the workspace. -/
lemma copyIn_within {dir : String} {fs : List String} {ds : List (String × String)}
    (h : runOn w (a.copyIn dir fs) = (.ok ds, w')) : ∀ f ∈ fs, (Path.within? w.here a.workspace f).isSome = true := by
  induction fs generalizing w ds with
  | nil => exact fun _ hf => absurd hf List.not_mem_nil
  | cons f fs ih =>
    obtain ⟨source, target, t, t', c, ds', hs, -, -, -, -, -, hrest⟩ := copyIn_cons h
    refine List.forall_mem_cons.2 ⟨?_, fun g hg => ih hrest g hg⟩
    unfold Workspace.resolve at hs
    split at hs
    · rename_i hsome
      rw [hsome]
      rfl
    · exact absurd hs nofun

/-- What a copy that can be read at its target leaves: the bytes of the source at the target. -/
lemma copy_read {t t' : Tree} {source target : String} {c : ByteArray} (h : t.copy source target = .ok t')
    (hr : t'.read target = .ok c) :
    t.bytes? (Path.lexical source) = some c ∧ t.get? (Path.lexical target) ≠ some .directory ∧
      ∀ q, t'.get? q = if q = Path.lexical target then some (.file c) else t.get? q := by
  obtain ⟨b, -, hb, -, -, hw⟩ := Tree.copy_ok h
  obtain ⟨-, p, hs⟩ := Tree.read_eq_ok.1 hr
  obtain ⟨hp, hc⟩ := Tree.stat_eq.1 hs
  obtain rfl := Tree.place_lexical hp
  have hland : t.landing source target = target := by
    rw [Tree.landing, if_neg]
    intro hd
    obtain ⟨p, hd⟩ := Tree.isDirectory_iff.1 hd
    obtain ⟨hp, hd⟩ := Tree.stat_eq.1 hd
    obtain rfl := Tree.place_lexical hp
    rw [hw.after] at hc
    split at hc
    · rename_i heq
      exact hw.free (heq ▸ hd)
    · cases hd.symm.trans hc
  rw [hland] at hw
  obtain rfl : b = c := by
    rw [hw.after, if_pos rfl] at hc
    exact Entry.file.inj (Option.some.inj hc)
  exact ⟨Tree.bytes?_eq_some.2 hb, hw.free, hw.after⟩

/-- The bytes that some files had. -/
def Known (a : Archive) (old : Place → Option ByteArray) (files : List String) (c : ByteArray) : Prop :=
  ∃ f ∈ files, old (a.targetOf f) = some c

/-- What holds while files are copied into a place: outside it files are as they were, and what lies in it
was copied from there. -/
structure Copying (a : Archive) (old : Place → Option ByteArray) (files : List String) (d : Place) (u : Tree) :
    Prop where
  outside : ∀ p, ¬ d <+: p → u.bytes? p = old p
  inside : ∀ p c, d <+: p → u.bytes? p = some c → a.Known old files c

/-- Files stay files, and directories stay directories. -/
structure Stays (t u : Tree) : Prop where
  files : ∀ p, (t.bytes? p).isSome → (u.bytes? p).isSome
  directories : ∀ p, t.get? p = some .directory → u.get? p = some .directory

lemma Stays.refl (t : Tree) : Stays t t := ⟨fun _ h => h, fun _ h => h⟩

lemma Stays.trans {t u v : Tree} (h : Stays t u) (h' : Stays u v) : Stays t v :=
  ⟨fun p hp => h'.files p (h.files p hp), fun p hp => h'.directories p (h.directories p hp)⟩

lemma stays_grown {t u : Tree} (h : Tree.Grown t u) : Stays t u :=
  ⟨fun p hp => by rwa [h.bytes? p], fun p hp => h.get?_of_some hp⟩

/-- Setting a file where no directory stands takes nothing away. -/
lemma stays_set {t u : Tree} {p : Place} {c : ByteArray} (hfree : t.get? p ≠ some .directory)
    (h : ∀ q, u.get? q = if q = p then some (.file c) else t.get? q) : Stays t u := by
  constructor
  · intro q hq
    by_cases hqp : q = p
    · rw [Tree.bytes?_eq_some.2 (by rw [h, if_pos hqp])]
      rfl
    · have hsame : u.bytes? q = t.bytes? q := Tree.bytes?_congr (by rw [h, if_neg hqp])
      rwa [hsame]
  · intro q hq
    by_cases hqp : q = p
    · exact absurd (hqp ▸ hq) hfree
    · rw [h, if_neg hqp, hq]

/-- The archived copy of a file: it has a digest of known bytes, those that the file had if there were any, and there
is a file where it came from and where it went. -/
structure Archived (a : Archive) (old : Place → Option ByteArray) (files : List String) (dir : String) (u : Tree)
    (f digest : String) : Prop where
  digest : ∃ c, a.Known old files c ∧ digest = Digest.sha256 c ∧
    (¬ Path.lexical dir <+: a.targetOf f → old (a.targetOf f) = some c)
  source : (u.bytes? (a.targetOf f)).isSome
  copy : (u.bytes? (Path.lexical (Path.join dir f))).isSome
  below : Path.lexical dir <+: Path.lexical (Path.join dir f)

lemma Archived.mono {old : Place → Option ByteArray} {u v : Tree} {files : List String} {dir f digest : String}
    (h : a.Archived old files dir u f digest) (hs : Stays u v) : a.Archived old files dir v f digest :=
  ⟨h.digest, hs.files _ h.source, hs.files _ h.copy, h.below⟩

/-- One file is copied in. -/
lemma Copying.step {old : Place → Option ByteArray} {u v x : Tree} {files : List String}
    {dir f source target : String} {c : ByteArray} {here : String}
    (hh : Path.isAbsolute here = true) (hws : Path.Clear a.workspace) (hdir : Path.Clear dir) (hf : f ∈ files)
    (h : a.Copying old files (Path.lexical dir) u) (hs : Workspace.resolve here a.workspace f = .ok source)
    (ht : Workspace.resolve here dir f = .ok target) (hg : Tree.Grown u v) (hc : v.copy source target = .ok x)
    (hr : x.read target = .ok c) :
    a.Copying old files (Path.lexical dir) x ∧ Stays u x ∧ a.Archived old files dir x f (Digest.sha256 c) := by
  obtain ⟨-, hsource, -⟩ := resolve_lexical hh hws hs
  obtain ⟨-, htarget, hbelow⟩ := resolve_lexical hh hdir ht
  obtain ⟨hbytes, hfree, hafter⟩ := copy_read hc hr
  rw [hsource, hg.bytes?] at hbytes
  rw [htarget] at hfree hafter hbelow
  have hstays : Stays u x := (stays_grown hg).trans (stays_set hfree hafter)
  have hother : ∀ p, p ≠ Path.lexical (Path.join dir f) → x.bytes? p = u.bytes? p := fun p hp =>
    (Tree.bytes?_congr (by rw [hafter, if_neg hp])).trans (hg.bytes? p)
  have hthere : x.bytes? (Path.lexical (Path.join dir f)) = some c :=
    Tree.bytes?_eq_some.2 (by rw [hafter, if_pos rfl])
  have hknown : a.Known old files c := by
    by_cases hd : Path.lexical dir <+: a.targetOf f
    · exact h.inside _ c hd hbytes
    · exact ⟨f, hf, by rw [← h.outside _ hd]; exact hbytes⟩
  refine ⟨⟨fun p hp => ?_, fun p c' hp hc' => ?_⟩, hstays, ⟨c, hknown, rfl, fun hd => ?_⟩, ?_, ?_, hbelow⟩
  · rw [hother p fun heq => hp (heq ▸ hbelow), h.outside p hp]
  · by_cases heq : p = Path.lexical (Path.join dir f)
    · rw [heq, hthere] at hc'
      exact Option.some.inj hc' ▸ hknown
    · exact h.inside p c' hp (by rwa [hother p heq] at hc')
  · rw [← h.outside _ hd]
    exact hbytes
  · refine hstays.files _ ?_
    rw [show u.bytes? (a.targetOf f) = some c from hbytes]
    rfl
  · rw [hthere]
    rfl

/-- Files are copied in, by induction on those that are left. -/
lemma copyIn_ok {old : Place → Option ByteArray} {files fs : List String} {dir : String}
    {ds : List (String × String)}
    (hws : Path.Clear a.workspace) (hdir : Path.Clear dir) (hfs : ∀ f ∈ fs, f ∈ files)
    (h : a.Copying old files (Path.lexical dir) w.tree) (hr : runOn w (a.copyIn dir fs) = (.ok ds, w')) :
    a.Copying old files (Path.lexical dir) w'.tree ∧ Stays w.tree w'.tree ∧ ds.map (·.1) = fs ∧ w'.here = w.here ∧
      ∀ x ∈ ds, a.Archived old files dir w'.tree x.1 x.2 := by
  induction fs generalizing w ds with
  | nil =>
    obtain ⟨hds, rfl⟩ := Prod.mk.inj hr
    obtain rfl := Except.ok.inj hds
    exact ⟨h, .refl _, rfl, rfl, fun _ hx => absurd hx List.not_mem_nil⟩
  | cons f fs ih =>
    obtain ⟨source, target, v, x, c, ds', hs, ht, hg, hc, hread, rfl, hrest⟩ := copyIn_cons hr
    have htabs := (resolve_lexical w.rooted hdir ht).1.absolute
    rw [World.located_absolute htabs] at hread
    obtain ⟨hcopying, hstays, harchived⟩ := h.step w.rooted hws hdir (hfs f List.mem_cons_self) hs ht
      (Tree.ensureDirectories_grown hg) hc hread
    obtain ⟨hcopying', hstays', hmap, hhere, heach⟩ := ih (fun g hg => hfs g (List.mem_cons_of_mem f hg)) hcopying hrest
    refine ⟨hcopying', hstays.trans hstays', by rw [List.map_cons, hmap], hhere, fun y hy => ?_⟩
    rcases List.mem_cons.1 hy with rfl | hy
    · exact harchived.mono hstays'
    · exact heach y hy

/-! ### Putting together -/

/-- A name is a name also without the mark of a staging directory. -/
lemma isName_nameOf {now : Instant} {n : Nat} (h : isName (stagingMark ++ nameOf now n) = true) :
    isName (nameOf now n) = true := by
  obtain ⟨⟨h1, h2, h3⟩, hslash, -⟩ := proper_nameOf now n
  obtain ⟨-, -, -, hsize⟩ := Tree.proper_of_isName h
  have hzero : '\x00' ∉ (nameOf now n).toList := fun h => (of_mem_nameOf h).elim (by decide) (by decide)
  rw [String.utf8ByteSize_append] at hsize
  simp [isName, h1, h2, h3, hslash, hzero, show (nameOf now n).utf8ByteSize ≤ maxName by omega]

/-- The names that are wanted are wanted once. -/
lemma nodup_wanted (a : Archive) (here : String) (files : List String) : (a.wanted here files).Nodup := by
  have hfold : ∀ seen : List String, seen.Nodup → (files.foldl (fun seen raw =>
      let f := Path.clean here a.workspace raw
      if f.isEmpty || seen.contains f then seen else f :: seen) seen).Nodup := by
    induction files with
    | nil => exact fun _ h => h
    | cons raw files ih =>
      intro seen hseen
      refine ih _ ?_
      dsimp only
      split
      · exact hseen
      · rename_i hnew
        simp only [Bool.or_eq_true, List.contains_eq_mem, decide_eq_true_eq, not_or] at hnew
        exact List.nodup_cons.2 ⟨hnew.2, hseen⟩
  exact List.nodup_reverse.2 (hfold [] List.nodup_nil)

/-- What is wanted are the files that were asked for, cleaned, but for blank ones. -/
lemma mem_wanted {here : String} {files : List String} {f : String} :
    f ∈ a.wanted here files ↔ f ≠ "" ∧ ∃ raw ∈ files, Path.clean here a.workspace raw = f := by
  have hstep : ∀ (seen : List String) (g : String),
      f ∈ (if g.isEmpty || seen.contains g then seen else g :: seen) ↔ f ∈ seen ∨ f ≠ "" ∧ g = f := by
    intro seen g
    split
    · rename_i hold
      rw [Bool.or_eq_true, String.isEmpty_iff, List.contains_iff_mem] at hold
      refine ⟨.inl, ?_⟩
      rintro (h | ⟨hne, rfl⟩)
      · exact h
      · exact hold.resolve_left hne
    · rename_i hnew
      rw [Bool.or_eq_true, String.isEmpty_iff, not_or] at hnew
      rw [List.mem_cons]
      constructor
      · rintro (rfl | h)
        · exact .inr ⟨hnew.1, rfl⟩
        · exact .inl h
      · rintro (h | ⟨-, rfl⟩)
        · exact .inr h
        · exact .inl rfl
  have hfold : ∀ seen : List String, f ∈ files.foldl (fun seen raw =>
      let f := Path.clean here a.workspace raw
      if f.isEmpty || seen.contains f then seen else f :: seen) seen ↔
        f ∈ seen ∨ f ≠ "" ∧ ∃ raw ∈ files, Path.clean here a.workspace raw = f := by
    induction files with
    | nil => simp
    | cons raw files ih =>
      intro seen
      rw [List.foldl_cons, ih, hstep, or_assoc, ← and_or_left]
      simp
  rw [wanted, List.mem_reverse, hfold]
  simp

/-- The steps in which a backup is put together. -/
lemma assemble_steps {now : Instant} {name description : String} {files : List String}
    (hm : Path.isAbsolute (Path.join (Path.join a.root (stagingMark ++ name)) manifestName) = true)
    (h : runOn w (a.assemble now name description files) = (.ok b, w')) :
    ∃ t u t' t'', w.tree.newDirectories (Path.join (Path.join a.root (stagingMark ++ name)) filesName) = .ok t ∧
      runOn { w with tree := t } (a.copyIn (Path.join (Path.join a.root (stagingMark ++ name)) filesName) files) =
        (.ok b.digests, u) ∧
      runOn u a.nextSequence = (.ok b.sequence, u) ∧ Number.isWritable b.sequence = true ∧
      u.tree.write (Path.join (Path.join a.root (stagingMark ++ name)) manifestName)
        (Text.encode (Json.write b.manifest)) = .ok t' ∧
      t'.rename (Path.join a.root (stagingMark ++ name)) (Path.join a.root name) = .ok t'' ∧
      b = ⟨name, now, description, files, Path.join a.root name, b.sequence, b.digests⟩ ∧
      w' = { u with tree := t'' } := by
  unfold assemble at h
  obtain ⟨t, ht, h⟩ := of_edit_bind_ok h
  obtain ⟨ds, u, hcopy, h⟩ := of_bind_ok h
  obtain ⟨s, v, hnext, h⟩ := of_bind_ok h
  have hlook : v = u := (looks_nextSequence a).eq hnext
  rw [hlook] at hnext h
  obtain ⟨text, htext, h⟩ := of_ofResult_bind_ok h
  obtain ⟨t', ht', h⟩ := of_writeText_bind_ok hm h
  obtain ⟨t'', ht'', h⟩ := of_edit_bind_ok h
  obtain ⟨hb, rfl⟩ := Prod.mk.inj h
  obtain rfl := Except.ok.inj hb
  obtain ⟨hwritable, rfl⟩ : Number.isWritable s = true ∧
      Json.write (Backup.manifest ⟨name, now, description, files, Path.join a.root name, s, ds⟩) = text := by
    unfold manifestText at htext
    split at htext
    · rename_i hs
      exact ⟨hs, Except.ok.inj htext⟩
    · exact absurd htext nofun
  exact ⟨t, u, t', t'', ht, hcopy, hnext, hwritable, ht', ht'', rfl, rfl⟩

/-- What is left when a manifest is written in a staging directory and all of it is moved to a place where nothing was but
maybe an empty directory. -/
structure Moved (a : Archive) (name : String) (c : ByteArray) (t t' : Tree) : Prop where
  root : t.get? (Path.lexical a.root) = some .directory
  free : t.bytes? (a.placeOf name) = none
  empty : ∀ r, r ≠ [] → t.get? (a.placeOf name ++ r) = none
  manifest : t'.bytes? (a.manifestPlace name) = some c
  inside : ∀ r, r ≠ [manifestName] → t'.get? (a.placeOf name ++ r) = t.get? (a.stagingPlace name ++ r)
  gone : ∀ r, t'.get? (a.stagingPlace name ++ r) = none
  outside : ∀ p, ¬ a.stagingPlace name <+: p → ¬ a.placeOf name <+: p → t'.get? p = t.get? p

/-- The staging directory of a backup and its own directory lie beside each other. -/
lemma stagingPlace_apart (a : Archive) (name : String) (r r' : Place) :
    a.stagingPlace name ++ r ≠ a.placeOf name ++ r' := by
  rw [stagingPlace, placeOf, List.append_assoc, List.append_assoc]
  intro h
  have hhead := (List.cons.inj (List.append_cancel_left h)).1
  have hlen := congrArg String.length hhead
  rw [String.length_append] at hlen
  have hmark : stagingMark.length = 9 := rfl
  omega

lemma moved {now : Instant} {n : Nat} {c : ByteArray} {t t' t'' : Tree} (ha : Path.Clear a.root)
    (ht' : t.write (Path.join (Path.join a.root (stagingMark ++ nameOf now n)) manifestName) c = .ok t')
    (ht'' : t'.rename (Path.join a.root (stagingMark ++ nameOf now n)) (Path.join a.root (nameOf now n)) = .ok t'') :
    a.Moved (nameOf now n) c t t'' := by
  have hsites := sites_nameOf ha now n
  have hwrote := (Tree.write_ok ht').2
  rw [hsites.manifest.2] at hwrote
  have hstaging : t'.get? (a.stagingPlace (nameOf now n)) = some .directory :=
    Tree.get?_above (List.cons_ne_nil manifestName []) (by rw [hwrote.after, if_pos rfl])
  have hnames := Tree.isName_of_get? hstaging
  have hplace : ∀ m ∈ a.placeOf (nameOf now n), isName m = true := by
    intro m hm
    rcases List.mem_append.1 hm with hm | hm
    · exact hnames m (List.mem_append_left _ hm)
    · rw [List.mem_singleton.1 hm]
      exact isName_nameOf (hnames _ (List.mem_append_right _ (List.mem_singleton.2 rfl)))
  have hapart : ∀ r r', a.stagingPlace (nameOf now n) ++ r ≠ a.placeOf (nameOf now n) ++ r' :=
    stagingPlace_apart a (nameOf now n)
  have hmoved := Tree.rename_directory ht'' (by rwa [hsites.staging.2]) (by simp [hsites.place.2, placeOf])
    (by rwa [hsites.place.2]) (by
      rw [hsites.place.2, hsites.staging.2]
      rintro ⟨r, hr⟩
      exact hapart r [] (by rw [hr, List.append_nil]))
  rw [hsites.place.2, hsites.staging.2] at hmoved
  obtain ⟨hfree, hempty, hthere, helse⟩ := hmoved
  have hbefore : ∀ p, p ≠ a.stagingPlace (nameOf now n) ++ [manifestName] → t'.get? p = t.get? p := fun p hp => by
    rw [hwrote.after, if_neg hp]
  refine ⟨?_, ?_, fun r hr => ?_, ?_, fun r hr => ?_, fun r => ?_, fun p hp hp' => ?_⟩
  · have hroot := Tree.get?_dropLast hstaging
    rw [stagingPlace, List.dropLast_concat, hwrote.after, if_neg] at hroot
    · exact hroot
    · rw [stagingPlace, List.append_assoc, ← List.append_nil (Path.lexical a.root), List.append_assoc]
      exact fun h => List.cons_ne_nil _ _ (List.append_cancel_left h).symm
  · rw [← Tree.bytes?_congr (hbefore _ fun h => hapart [manifestName] [] (h.symm.trans (List.append_nil _).symm)), hfree]
  · rw [← hbefore _ fun h => hapart [manifestName] r h.symm, hempty r hr]
  · rw [manifestPlace, Tree.bytes?_eq_some, hthere, hwrote.after, if_pos rfl]
  · rw [hthere, hbefore _ fun h => hr (List.append_cancel_left h)]
  · have hnot : ¬ a.placeOf (nameOf now n) <+: a.stagingPlace (nameOf now n) ++ r := by
      rintro ⟨r', hr'⟩
      exact hapart r r' hr'.symm
    rw [helse _ hnot, if_pos (List.prefix_append _ r)]
  · rw [← hbefore p fun h => hp (h ▸ List.prefix_append _ _), helse p hp', if_neg hp]

/-- No file was where everything is moved. -/
lemma Moved.bytes? {name : String} {c : ByteArray} {t t' : Tree} (h : a.Moved name c t t') (r : Place) :
    t.bytes? (a.placeOf name ++ r) = none := by
  rcases eq_or_ne r [] with rfl | hr
  · rw [List.append_nil]
    exact h.free
  · rw [Tree.bytes?, h.empty r hr]

/-- What a backup that is put together says, and what is left where: its directory is new, has its manifest and
copies of known bytes, and nothing is left of its staging directory. -/
structure Assembled (a : Archive) (here : String) (old : Place → Option ByteArray) (w' : World) (now : Instant)
    (name description : String) (files : List String) (b : Backup) : Prop where
  said : b = ⟨name, now, description, files, Path.join a.root name, b.sequence, b.digests⟩
  writable : Number.isWritable b.sequence = true
  digested : b.digests.map (·.1) = files
  next : ∃ u : World, (∀ p, ¬ a.stagingPlace name <+: p → u.tree.bytes? p = old p) ∧
    runOn u a.nextSequence = (.ok b.sequence, u)
  manifest : w'.tree.bytes? (a.manifestPlace name) = some (Text.encode (Json.write b.manifest))
  fresh : ∀ r, old (a.placeOf name ++ r) = none
  gone : ∀ r, w'.tree.get? (a.stagingPlace name ++ r) = none
  outside : ∀ p, ¬ a.stagingPlace name <+: p → ¬ a.placeOf name <+: p → w'.tree.bytes? p = old p
  inside : ∀ r c, w'.tree.bytes? (a.placeOf name ++ filesName :: r) = some c → a.Known old files c
  digests : ∀ x ∈ b.digests, ∃ c, a.Known old files c ∧ x.2 = Digest.sha256 c ∧
    ∀ c', old (a.targetOf x.1) = some c' → c' = c
  below : ∀ f ∈ files, a.stagingPlace name ++ [filesName] <+:
    Path.lexical (Path.join (Path.join (Path.join a.root (stagingMark ++ name)) filesName) f)
  seen : w'.here = here
  within : ∀ f ∈ files, (Path.within? here a.workspace f).isSome = true
  present : ∀ f ∈ files, ¬ a.stagingPlace name <+: a.targetOf f → (old (a.targetOf f)).isSome = true
  targets : ∀ f ∈ files, ¬ a.targetOf f <+: Path.lexical a.root
  beside : ∀ f ∈ files, ¬ a.placeOf name <+: a.targetOf f
  apart : ∀ f ∈ files, ∀ g ∈ files, a.targetOf f <+: a.targetOf g → a.targetOf f = a.targetOf g

/-- What holds of a backup that is put together. -/
lemma assemble_ok (ha : Path.Clear a.root) (hws : Path.Clear a.workspace) {now : Instant} {n : Nat}
    {description : String} {files : List String}
    (h : runOn w (a.assemble now (nameOf now n) description files) = (.ok b, w')) :
    a.Assembled w.here w.tree.bytes? w' now (nameOf now n) description files b := by
  have hsites := sites_nameOf ha now n
  obtain ⟨t, u, t', t'', ht, hcopy, hnext, hwritable, ht', ht'', hb, rfl⟩ := assemble_steps hsites.manifest.1.absolute h
  -- The directory for the copies is new.
  have hnew : w.tree.get? (a.stagingPlace (nameOf now n) ++ [filesName]) = none := by
    rw [← hsites.staging.2]
    exact (Tree.newDirectories_ok hsites.staging.1 (by decide) (by decide) ht).1
  have hgrown := Tree.newDirectories_grown ht
  have hstart : a.Copying w.tree.bytes? files
      (Path.lexical (Path.join (Path.join a.root (stagingMark ++ nameOf now n)) filesName)) t :=
    ⟨fun p _ => hgrown.bytes? p, fun p c hp hc => by
      rw [hsites.files.2] at hp
      rw [hgrown.bytes? p, Tree.bytes?_below_none hnew hp] at hc
      exact absurd hc nofun⟩
  obtain ⟨hcopying, -, hdigested, hhere, harchived⟩ := copyIn_ok hws hsites.files.1 (fun f hf => hf) hstart hcopy
  have hwithin := copyIn_within hcopy
  have hmoved := moved ha ht' ht''
  have hmember : ∀ f ∈ files, ∃ d, (f, d) ∈ b.digests := by
    intro f hf
    rw [← hdigested] at hf
    obtain ⟨⟨g, d⟩, hx, rfl⟩ := List.mem_map.1 hf
    exact ⟨d, hx⟩
  have hsource : ∀ f ∈ files, ∃ c, u.tree.get? (a.targetOf f) = some (.file c) := by
    intro f hf
    obtain ⟨d, hx⟩ := hmember f hf
    obtain ⟨c, hc⟩ := Option.isSome_iff_exists.1 (harchived _ hx).source
    exact ⟨c, Tree.bytes?_eq_some.1 hc⟩
  rw [hsites.files.2] at hcopying
  have hold : ∀ p, ¬ a.stagingPlace (nameOf now n) <+: p → u.tree.bytes? p = w.tree.bytes? p := fun p hp =>
    hcopying.outside p fun hpre => hp ((List.prefix_append _ _).trans hpre)
  refine ⟨hb, hwritable, hdigested, ⟨u, hold, hnext⟩, hmoved.manifest, fun r => ?_, hmoved.gone, fun p hp hp' => ?_,
    fun r c hc => ?_, fun x hx => ?_, fun f hf => ?_, hhere, hwithin, fun f hf hout => ?_,
    fun f hf hpre => ?_, fun f hf hpre => ?_, fun f hf g hg hpre => ?_⟩
  · rw [← hold _ fun ⟨r', hr'⟩ => stagingPlace_apart a _ r' r hr', hmoved.bytes?]
  · rw [← hold p hp]
    exact Tree.bytes?_congr (hmoved.outside p hp hp')
  · refine hcopying.inside (a.stagingPlace (nameOf now n) ++ filesName :: r) c ?_ ?_
    · exact ⟨r, by simp⟩
    · rw [← hc]
      exact (Tree.bytes?_congr (hmoved.inside _ fun h => absurd (List.cons.inj h).1 (by decide))).symm
  · obtain ⟨c, hknown, hdigest, hsame⟩ := (harchived x hx).digest
    refine ⟨c, hknown, hdigest, fun c' hc' => ?_⟩
    rw [hsites.files.2] at hsame
    by_cases hpre : a.stagingPlace (nameOf now n) ++ [filesName] <+: a.targetOf x.1
    · rw [Tree.bytes?_below_none hnew hpre] at hc'
      exact absurd hc' nofun
    · exact Option.some.inj (hc'.symm.trans (hsame hpre))
  · obtain ⟨d, hx⟩ := hmember f hf
    rw [← hsites.files.2]
    exact (harchived _ hx).below
  · obtain ⟨c, hc⟩ := hsource f hf
    rw [← hold _ hout, Tree.bytes?_eq_some.2 hc]
    rfl
  · obtain ⟨c, hc⟩ := hsource f hf
    have hne : Path.lexical a.root ≠ a.targetOf f := by
      intro h
      rw [← h, hmoved.root] at hc
      exact absurd hc nofun
    exact absurd ((Tree.get?_below_file hc hpre hne).symm.trans hmoved.root) nofun
  · obtain ⟨c, hc⟩ := hsource f hf
    obtain ⟨r, hr⟩ := hpre
    exact absurd ((Tree.bytes?_eq_some.2 (hr ▸ hc)).symm.trans (hmoved.bytes? r)) nofun
  · obtain ⟨c, hc⟩ := hsource f hf
    obtain ⟨c', hc'⟩ := hsource g hg
    by_contra hne
    exact absurd ((Tree.get?_below_file hc hpre (Ne.symm hne)).symm.trans hc') nofun

/-! ### A backup that was made -/

lemma ensure_ok (h : runOn w a.ensure = (.ok (), w')) : ∃ t, Tree.Grown w.tree t ∧ w' = { w with tree := t } := by
  rw [ensure, runOn_told, runOn_ensureDirectories, runOn_edit] at h
  rcases ht : w.tree.ensureDirectories (w.located a.root) with f | t
  · rw [ht] at h
    exact absurd (Prod.mk.inj h).1 nofun
  · rw [ht] at h
    exact ⟨t, Tree.ensureDirectories_grown ht, (Prod.mk.inj h).2.symm⟩

/-- A backup that was made was put together. -/
lemma create_ok (ha : Path.Clear a.root) (hws : Path.Clear a.workspace) {files : List String} {description : String}
    (h : runOn w (a.create files description) = (.ok b, w')) :
    ∃ n, a.Assembled w.here w.tree.bytes? w' w.now (nameOf w.now n) description (a.wanted w.here files) b := by
  rcases create_cases h with ⟨f, hf, -⟩ | ⟨u, he, n, v, -, rfl, ⟨b', hb, hr⟩ | ⟨f, x, -, ⟨-, hf, -⟩ | ⟨-, hf, -⟩⟩⟩
  · exact absurd hf nofun
  · obtain rfl := Except.ok.inj hb
    obtain ⟨t, hg, rfl⟩ := ensure_ok he
    have hsame : t.bytes? = w.tree.bytes? := funext hg.bytes?
    have hassembled := assemble_ok ha hws hr
    dsimp only at hassembled
    rw [hsame] at hassembled
    exact ⟨n, hassembled⟩
  · exact absurd hf nofun
  · exact absurd hf nofun

/-- The sequence number that follows those of some backups. -/
def following (bs : List Backup) : Int := (bs.getLast?.map (·.sequence + 1)).getD 1

lemma Holds.next (ha : Path.Clear a.root) (h : a.Holds w bs) : runOn w a.nextSequence = (.ok (following bs), w) := by
  rw [nextSequence, runOn_bind_ok _ (h.list ha)]
  rfl

lemma Holds.lt_following (h : a.Holds w bs) : 1 ≤ following bs ∧ ∀ c ∈ bs, c.sequence < following bs := by
  rcases List.eq_nil_or_concat' bs with rfl | ⟨cs, c, rfl⟩
  · exact ⟨le_refl 1, fun _ hc => absurd hc List.not_mem_nil⟩
  · have hlast : following (cs ++ [c]) = c.sequence + 1 := by rw [following, List.getLast?_concat]; rfl
    have hc := (h.keeps c (by simp)).positive
    rw [hlast]
    refine ⟨by omega, fun d hd => ?_⟩
    rcases List.mem_append.1 hd with hd | hd
    · have hlt := (List.pairwise_append.1 h.ordered).2.2 d hd c (List.mem_singleton.2 rfl)
      omega
    · rw [List.mem_singleton.1 hd]
      omega

/-- The manifests of listed names lie outside staging directories. -/
lemma manifestPlace_apart {name m : String} (hm : Listed m) : ¬ a.stagingPlace name <+: a.manifestPlace m := by
  rw [manifestPlace, placeOf, stagingPlace, List.append_assoc, List.prefix_append_right_inj]
  intro h
  refine hm ?_
  rw [← (List.cons_prefix_cons.1 h).1]
  simp [stagingMark, String.toList_append]

lemma manifestPlace_beside {name m : String} (hne : m ≠ name) : ¬ a.placeOf name <+: a.manifestPlace m := by
  rw [manifestPlace, placeOf, placeOf, List.append_assoc, List.prefix_append_right_inj]
  intro h
  exact hne (List.cons_prefix_cons.1 h).1.symm

lemma listed_nameOf (now : Instant) (n : Nat) : Listed (nameOf now n) := by
  simp [Listed, nameOf, String.toList_append]

lemma plain_nameOf (now : Instant) (n : Nat) : '\\' ∉ (nameOf now n).toList := fun h =>
  (of_mem_nameOf h).elim (by decide) (by decide)

/-- The digest that is recorded for a file is that of the bytes that it had. -/
lemma Assembled.lookup {here name description : String} {old : Place → Option ByteArray} {now : Instant}
    {files : List String} (hb : a.Assembled here old w' now name description files b) (hfiles : files.Nodup) {f : String}
    (hf : f ∈ files) {c : ByteArray} (hc : old (a.targetOf f) = some c) :
    b.digests.lookup f = some (Digest.sha256 c) := by
  have hnodup : (b.digests.map (·.1)).Nodup := by rwa [hb.digested]
  obtain ⟨d, hx⟩ : ∃ d, (f, d) ∈ b.digests := by
    rw [← hb.digested] at hf
    obtain ⟨⟨g, d⟩, hx, rfl⟩ := List.mem_map.1 hf
    exact ⟨d, hx⟩
  obtain ⟨c', -, hd, hsame⟩ := hb.digests _ hx
  refine (Tree.lookup_iff_mem hnodup).2 ?_
  rwa [hsame c hc, ← hd]

/-- A backup that was put together at a time of the calendar is read back from its manifest. -/
lemma Assembled.sound {here name description : String} {old : Place → Option ByteArray} {now : Instant}
    {files : List String} (hb : a.Assembled here old w' now name description files b) (hfiles : files.Nodup)
    (huniversal : now.offset = some 0) (hcalendar : Instant.inCalendar now.reading = true) : b.Sound := by
  refine ⟨⟨hb.writable, ?_⟩, ?_, ?_⟩
  · rw [hb.digested]
    exact hfiles
  · rw [hb.said]
    exact hcalendar
  · rw [hb.said]
    exact huniversal

/-- Whether the clock of a world tells a time of the calendar in universal time. -/
structure Timely (w : World) : Prop where
  universal : w.now.offset = some 0
  inCalendar : Instant.inCalendar w.now.reading = true

/-- **A backup that was made stands after those that were there**, with the sequence number that follows theirs. -/
theorem Holds.create (ha : Path.Clear a.root) (hws : Path.Clear a.workspace) (h : a.Holds w bs) (hw : Timely w)
    {files : List String} {description : String} (hr : runOn w (a.create files description) = (.ok b, w')) :
    a.Holds w' (bs ++ [b]) ∧ b.sequence = following bs := by
  obtain ⟨n, hb⟩ := create_ok ha hws hr
  generalize hwanted : a.wanted w.here files = fs at hb
  have hfs : fs.Nodup := hwanted ▸ nodup_wanted a w.here files
  have hname : b.name = nameOf w.now n := by rw [hb.said]
  have hfiles : b.files = fs := by rw [hb.said]
  have hseq : b.sequence = following bs := by
    obtain ⟨u, hu, hnext⟩ := hb.next
    have hheld : a.Holds u bs := h.congr fun m hm => hu _ (manifestPlace_apart hm)
    exact Except.ok.inj (Prod.mk.inj (hnext.symm.trans (hheld.next ha))).1
  have hnew : ∀ c ∈ bs, c.name ≠ b.name := by
    intro c hc heq
    have hmanifest := h.manifest hc
    rw [heq, hname, manifestPlace, hb.fresh] at hmanifest
    cases hmanifest
  have hkeeps : a.Keeps b := by
    obtain ⟨hproper, hslash, -⟩ := proper_nameOf w.now n
    refine ⟨hb.sound hfs hw.universal hw.inCalendar, ?_, ?_, ?_, ?_, hseq ▸ h.lt_following.1, ?_⟩
    · rw [hname, hb.said]
    · rw [hname]
      exact listed_nameOf w.now n
    · rw [hname]
      exact ⟨hproper, hslash⟩
    · rw [hname]
      exact plain_nameOf w.now n
    · rw [hfiles]
      exact hb.targets
  refine ⟨⟨fun c hc => ?_, ?_, ?_, fun m hm => ?_⟩, hseq⟩
  · rcases List.mem_append.1 hc with hc | hc
    · exact h.keeps c hc
    · exact List.mem_singleton.1 hc ▸ hkeeps
  · refine List.pairwise_append.2 ⟨h.ordered, List.pairwise_singleton _ _, fun c hc d hd => ?_⟩
    rw [List.mem_singleton.1 hd, hseq]
    exact h.lt_following.2 c hc
  · refine List.pairwise_append.2 ⟨h.named, List.pairwise_singleton _ _, fun c hc d hd => ?_⟩
    rw [List.mem_singleton.1 hd]
    exact hnew c hc
  · by_cases hmb : m = b.name
    · have hnone : bs.find? (·.name == b.name) = none := List.find?_eq_none.2 fun c hc => by simpa using hnew c hc
      rw [hmb, List.find?_append, hnone, hname, hb.manifest, List.find?_cons_of_pos (by simp [hname])]
      rfl
    · have hfind : (bs ++ [b]).find? (·.name == m) = bs.find? (·.name == m) := by
        rw [List.find?_append, List.find?_cons_of_neg (by simpa using Ne.symm hmb), List.find?_nil, Option.or_none]
      rw [hfind, ← h.manifests m hm]
      exact hb.outside _ (manifestPlace_apart hm) (manifestPlace_beside (hname ▸ hmb))

/-- **A backup that fails leaves the archive with what it held.** -/
lemma Holds.create_error (ha : Path.Clear a.root) (h : a.Holds w bs) {files : List String} {description : String}
    {f : Fault} (hr : runOn w (a.create files description) = (.error f, w')) : a.Holds w' bs := by
  obtain ⟨now, n, hagree⟩ := Archive.create_error ha hr
  exact h.congr fun m hm => hagree.files _ (manifestPlace_apart hm)

/-! ### Making a backup step by step -/

/-- A backup is made when it can be put together. -/
lemma create_of_assemble {files : List String} {description : String} {u : World}
    (he : runOn w a.ensure = (.ok (), u))
    (hr : runOn { u with draws := u.draws + 1 } (a.assemble u.now (nameOf u.now (u.draws + 1)) description
      (a.wanted u.here files)) = (.ok b, w')) : runOn w (a.create files description) = (.ok b, w') := by
  rw [create, runOn_bind_ok _ he, runOn_bind, runOn_get]
  dsimp only
  rw [runOn_bind, runOn_draw]
  dsimp only
  rw [runOn_outcome_bind, hr]
  rfl

end Ratchet.Archive
