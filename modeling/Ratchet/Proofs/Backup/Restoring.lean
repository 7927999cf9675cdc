import Ratchet.Proofs.Backup.Granted

/-!
Restoring backups.

A backup is checked before any of its files is written: every archived copy is there, with the bytes whose digest its
manifest records. So the files that are written back have the bytes that they had, if digests tell these apart and
nothing stands in their way. A directory that stands where a file goes takes the file in and stays.
-/

namespace Ratchet.Archive

open Act

variable {a : Archive} {w w' : World} {b : Backup} {bs : List Backup}

/-! ### What is left alone -/

lemma spares_copyOut {P : Place → Prop} (hws : Path.Clear a.workspace) {dir : String} {fs : List String}
    (h : ∀ f ∈ fs, ∀ p, P p → ¬ a.targetOf f <+: p) : Spares P (a.copyOut dir fs) := by
  induction fs with
  | nil => exact .pure _
  | cons f fs ih =>
    refine .bind .get fun w => .ofResult_bind fun target ht => ?_
    obtain ⟨hclear, hplace, -⟩ := resolve_lexical w.rooted hws ht
    refine .bind (.ensureDirectories _) fun _ => .bind (.edit fun t t' hc p hp => ?_) fun _ =>
      ih fun g hg => h g (List.mem_cons_of_mem f hg)
    exact bytes?_copy hclear hc fun hpre => h f List.mem_cons_self p hp (by rwa [hplace] at hpre)

/-- Restoring a backup leaves alone what none of its files is put above or at, however it ends. -/
lemma restore_agree {P : Place → Prop} (hws : Path.Clear a.workspace) {name : String}
    (h : ∀ b, runOn w (a.find name) = (.ok b, w) → ∀ f ∈ b.files, ∀ p, P p → ¬ a.targetOf f <+: p)
    {r : Except Fault Backup} (hr : runOn w (a.restore name) = (r, w')) : World.Agree P w w' := by
  unfold Archive.restore at hr
  rw [runOn_bind] at hr
  rcases hf : runOn w (a.find name) with ⟨f | b, u⟩
  · rw [hf] at hr
    have hu : u = w := (looks_find a name).eq hf
    rw [← (Prod.mk.inj hr).2, hu]
    exact .refl w
  · have hu : u = w := (looks_find a name).eq hf
    rw [hu] at hf
    rw [hf] at hr
    dsimp only at hr
    have hcopy : Spares P (a.copyOut (Path.join b.path filesName) b.files) := spares_copyOut hws (h b hf)
    have hspares : Spares P (do
        let wrong ← a.verify name
        unless wrong.isEmpty do
          throw (.plain .backupIntegrity ("Backup " ++ name ++ " is incomplete: " ++ "; ".intercalate wrong))
        told (fun k => k.isSystem || k.isValue) (.wrap .backup ("Restore of " ++ name ++ " failed"))
          (a.copyOut (Path.join b.path filesName) b.files)
        return b) := by
      refine .bind (looks_verify a name).spares fun wrong => .ite _ ?_ ?_
      · exact .bind (.told _ _ hcopy) fun _ => .pure _
      · exact .bind (.throw _) fun _ => .bind (.told _ _ hcopy) fun _ => .pure _
    have hagree := hspares w
    rwa [hr] at hagree

/-- Restoring a backup none of whose files lies in the archive leaves the archive with what it held, however it ends. -/
lemma Holds.restore (ha : Path.Clear a.root) (hws : Path.Clear a.workspace) (h : a.Holds w bs) {name : String}
    (hout : ∀ b ∈ bs, b.name = name → ∀ f ∈ b.files, ¬ Path.lexical a.root <+: a.targetOf f) {r : Except Fault Backup}
    (hr : runOn w (a.restore name) = (r, w')) : a.Holds w' bs := by
  have hagree : World.Agree (fun p => Path.lexical a.root <+: p) w w' := by
    refine restore_agree hws (fun b hf f hb p hp hpre => ?_) hr
    obtain ⟨hmem, hname⟩ := h.find ha hf
    rcases List.prefix_or_prefix_of_prefix hp hpre with hroot | hroot
    · exact hout b hmem hname f hb hroot
    · exact (h.keeps b hmem).targets f hb hroot
  exact h.congr fun m _ => hagree.files _ (root_prefix_manifestPlace a m)

/-! ### Where archived files lie -/

/-- The place at which the archived copy of a file is looked for. -/
def copyOf (a : Archive) (name f : String) : Place :=
  Path.lexical (Path.join (Path.join (Path.join a.root name) filesName) f)

/-- A copy that was put into the staging directory is looked for in the backup's directory, or where it was put. -/
lemma copyOf_cases (ha : Path.Clear a.root) {now : Instant} {n : Nat} {f : String}
    (h : a.stagingPlace (nameOf now n) ++ [filesName] <+: a.copyOf (stagingMark ++ nameOf now n) f) :
    (∃ r, a.copyOf (nameOf now n) f = a.placeOf (nameOf now n) ++ filesName :: r) ∨
      ∃ r, a.copyOf (nameOf now n) f = a.stagingPlace (nameOf now n) ++ r := by
  obtain ⟨hname, hslash, hmark, -⟩ := proper_nameOf now n
  have hsites := sites_nameOf ha now n
  by_cases habs : Path.isAbsolute f = true
  · obtain ⟨r, hr⟩ := h
    refine .inr ⟨filesName :: r, ?_⟩
    rw [copyOf, Path.join, if_pos habs] at hr
    rw [copyOf, Path.join, if_pos habs, ← hr]
    simp
  · have hrel : Path.isAbsolute f = false := by simpa using habs
    obtain ⟨hclear, hplace⟩ := hsites.place.1.child (n := filesName) (by decide) (by decide)
    rw [hsites.place.2] at hplace
    rw [copyOf, Path.lexical_join hsites.files.1.ne_empty hrel, hsites.files.2] at h
    rw [copyOf, Path.lexical_join hclear.ne_empty hrel, hplace]
    have hstack : ∀ m, (Path.lexical a.root ++ [m] ++ [filesName]).reverse =
        [filesName] ++ m :: (Path.lexical a.root).reverse := by simp
    rw [stagingPlace, hstack] at h
    rw [placeOf, hstack]
    rcases Path.foldl_beside hmark.2.2 hname.2.2 (Path.lexical a.root).reverse (Path.components f) [filesName] with
      ⟨r, hs, hp⟩ | heq
    · rw [hs] at h
      rw [hp]
      have hback : ∀ m, (r ++ m :: (Path.lexical a.root).reverse).reverse = Path.lexical a.root ++ [m] ++ r.reverse := by
        simp
      rw [hback] at h ⊢
      obtain ⟨r', hr'⟩ := (List.prefix_append_right_inj _).1 h
      exact .inl ⟨r', by rw [← hr']; simp⟩
    · rw [heq] at h
      obtain ⟨r, hr⟩ := h
      exact .inr ⟨filesName :: r, by rw [← hr]; simp [stagingPlace]⟩

/-! ### Checking -/

/-- Nothing is wrong with archived files that are there with the bytes whose digests are recorded. -/
lemma of_problems_nil {dir : String} {fs : List String} (hd : Path.isAbsolute dir = true)
    (h : runOn w (problems b dir fs) = (.ok [], w')) :
    ∀ f ∈ fs, ∃ c, w.tree.bytes? (Path.lexical (Path.join dir f)) = some c ∧
      ∀ d, b.digests.lookup f = some d → d ≠ "" → Digest.sha256 c = d := by
  induction fs generalizing w with
  | nil => exact fun _ hf => absurd hf List.not_mem_nil
  | cons f fs ih =>
    have hpath := Path.isAbsolute_join f hd
    have hrest : ∀ {found : List String}, runOn w (do return found ++ (← problems b dir fs)) = (.ok [], w') →
        found = [] ∧ runOn w (problems b dir fs) = (.ok [], w') := by
      intro found hr
      obtain ⟨xs, u, hu, hr⟩ := of_bind_ok hr
      rw [runOn_pure] at hr
      obtain ⟨hxs, rfl⟩ := Prod.mk.inj hr
      obtain ⟨rfl, rfl⟩ := List.append_eq_nil_iff.1 (Except.ok.inj hxs)
      exact ⟨rfl, hu⟩
    unfold problems at h
    obtain ⟨there, u, hthere, h⟩ := of_bind_ok h
    rw [runOn_isFile, World.located_absolute hpath] at hthere
    obtain ⟨hfile, rfl⟩ := Prod.mk.inj hthere
    rw [runOn_ite] at h
    split at h
    · rename_i ht
      rw [ht] at hfile
      obtain ⟨p, c, hs⟩ := Tree.isFile_iff.1 (Except.ok.inj hfile)
      obtain ⟨hp, hc⟩ := Tree.stat_eq.1 hs
      obtain rfl := Tree.place_lexical hp
      obtain ⟨c', hread, h⟩ := of_readBytes_bind_ok h
      rw [World.located_absolute hpath] at hread
      obtain ⟨-, q, hs'⟩ := Tree.read_eq_ok.1 hread
      obtain rfl : c' = c := by
        rw [hs'] at hs
        exact Entry.file.inj (Prod.mk.inj (Except.ok.inj hs)).2
      rw [runOn_ite] at h
      split at h
      · exact absurd (hrest h).1 (List.cons_ne_nil _ _)
      · rename_i hsame
        refine List.forall_mem_cons.2 ⟨⟨c', Tree.bytes?_eq_some.2 hc, fun d hd hne => ?_⟩, ih (hrest h).2⟩
        simpa [hd, hne] using hsame
    · exact absurd (hrest h).1 (List.cons_ne_nil _ _)

/-! ### Copying out -/

/-- A path to something below the root of the tree has a name. -/
lemma resolve_name {here root path p : String} (hh : Path.isAbsolute here = true)
    (h : Workspace.resolve here root path = .ok p) (hne : Path.lexical p ≠ []) : Path.name p ≠ "" := by
  unfold Workspace.resolve at h
  split at h
  · rename_i q hq
    obtain rfl := Except.ok.inj h
    obtain ⟨rfl, -, -⟩ := Path.within?_eq_some hh hq
    have habs := Path.isAbsolute_join path (Path.isAbsolute_absolute root hh)
    rw [Path.lexical_normal habs] at hne
    exact Path.name_normal habs hne
  · exact absurd h nofun

/-- Copying one file out, and then the others. -/
lemma copyOut_cons {dir f : String} {fs : List String} (h : runOn w (a.copyOut dir (f :: fs)) = (.ok (), w')) :
    ∃ target t t', Workspace.resolve w.here a.workspace f = .ok target ∧
      w.tree.ensureDirectories (w.located (Path.parent target)) = .ok t ∧ t.copy (Path.join dir f) target = .ok t' ∧
      runOn { w with tree := t' } (a.copyOut dir fs) = (.ok (), w') := by
  unfold copyOut at h
  rw [runOn_bind, runOn_get] at h
  dsimp only at h
  obtain ⟨target, ht, h⟩ := of_ofResult_bind_ok h
  obtain ⟨t, hd, h⟩ := of_ensureDirectories_bind_ok h
  obtain ⟨t', hc, h⟩ := of_edit_bind_ok h
  exact ⟨target, t, t', ht, hd, hc, h⟩

/-- Directories are left where they are. -/
lemma stays_copyOut {dir : String} {fs : List String} (h : runOn w (a.copyOut dir fs) = (.ok (), w')) :
    Stays w.tree w'.tree := by
  induction fs generalizing w with
  | nil =>
    rw [← (Prod.mk.inj h).2]
    exact .refl _
  | cons f fs ih =>
    obtain ⟨target, t, t', -, hd, hc, hrest⟩ := copyOut_cons h
    obtain ⟨c, -, -, -, -, hw⟩ := Tree.copy_ok hc
    exact (stays_grown (Tree.ensureDirectories_grown hd)).trans ((stays_set hw.free hw.after).trans (ih hrest))

/-- A copy to a place where no directory stands has the bytes of its source. -/
lemma copy_free {t t' : Tree} {source target : String} (h : t.copy source target = .ok t')
    (hfree : t.get? (Path.lexical target) ≠ some .directory) :
    ∃ c, t.bytes? (Path.lexical source) = some c ∧
      ∀ q, t'.get? q = if q = Path.lexical target then some (.file c) else t.get? q := by
  obtain ⟨c, -, hc, -, -, hw⟩ := Tree.copy_ok h
  have hland : t.landing source target = target := by
    rw [Tree.landing, if_neg]
    intro hd
    obtain ⟨p, hs⟩ := Tree.isDirectory_iff.1 hd
    obtain ⟨hp, hd⟩ := Tree.stat_eq.1 hs
    obtain rfl := Tree.place_lexical hp
    exact hfree hd
  rw [hland] at hw
  exact ⟨c, Tree.bytes?_eq_some.2 hc, hw.after⟩

/-- The files of a backup lie apart from each other and from what is archived in a directory. -/
structure Apart (a : Archive) (dir : String) (files : List String) : Prop where
  each : ∀ f ∈ files, ∀ g ∈ files, a.targetOf f <+: a.targetOf g → a.targetOf f = a.targetOf g
  copies : ∀ f ∈ files, ∀ g ∈ files, Path.lexical (Path.join dir f) ≠ a.targetOf g

/-- What holds while archived files are written back over a tree in which no directory stands in their way. -/
structure WrittenBack (a : Archive) (dir : String) (files : List String) (t : Tree) (done : List String) (u : Tree) :
    Prop where
  outside : ∀ q, (∀ f ∈ files, q ≠ a.targetOf f) → u.bytes? q = t.bytes? q
  free : ∀ f ∈ files, u.get? (a.targetOf f) ≠ some .directory
  done : ∀ f ∈ done, ∃ g ∈ files, a.targetOf g = a.targetOf f ∧
    ∃ c, u.bytes? (a.targetOf f) = some c ∧ t.bytes? (Path.lexical (Path.join dir g)) = some c

/-- One file is written back. -/
lemma WrittenBack.step {dir f target here : String} {files done : List String} {t u v x : Tree}
    (hh : Path.isAbsolute here = true) (hws : Path.Clear a.workspace) (hapart : a.Apart dir files) (hf : f ∈ files)
    (h : a.WrittenBack dir files t done u) (ht : Workspace.resolve here a.workspace f = .ok target)
    (hd : u.ensureDirectories (Path.parent target) = .ok v) (hc : v.copy (Path.join dir f) target = .ok x) :
    a.WrittenBack dir files t (f :: done) x := by
  obtain ⟨hclear, hplace, -⟩ := resolve_lexical hh hws ht
  rw [← targetOf] at hplace
  obtain ⟨hparent, ns, hns, hne⟩ := Path.clear_parent hclear
  have hgrown := Tree.ensureDirectories_grown hd
  have hname : ns ≠ [] := by
    refine hne (resolve_name hh ht fun h0 => h.free f hf ?_)
    rw [← hplace, h0]
    rfl
  -- No directory is made where a file of the backup goes.
  have hfree : ∀ g ∈ files, v.get? (a.targetOf g) ≠ some .directory := by
    intro g hg hdir
    by_cases hpre : a.targetOf g <+: Path.lexical (Path.parent target)
    · have hfg : a.targetOf g = a.targetOf f := hapart.each g hg f hf (by
        rw [← hplace, hns]
        exact hpre.trans (List.prefix_append _ _))
      have hlen := hpre.length_le
      rw [hfg, ← hplace, hns, List.length_append] at hlen
      have := List.length_pos_iff.2 hname
      omega
    · rw [Tree.ensureDirectories_above hparent hd hpre] at hdir
      exact h.free g hg hdir
  obtain ⟨c, hbytes, hafter⟩ := copy_free hc (by rw [hplace]; exact hfree f hf)
  rw [hgrown.bytes?, h.outside _ (hapart.copies f hf)] at hbytes
  rw [hplace] at hafter
  have hother : ∀ q, q ≠ a.targetOf f → x.bytes? q = u.bytes? q := fun q hq =>
    (Tree.bytes?_congr (by rw [hafter, if_neg hq])).trans (hgrown.bytes? q)
  have hthere : x.bytes? (a.targetOf f) = some c := Tree.bytes?_eq_some.2 (by rw [hafter, if_pos rfl])
  refine ⟨fun q hq => ?_, fun g hg => ?_, fun g hg => ?_⟩
  · rw [hother q (hq f hf), h.outside q hq]
  · rw [hafter]
    split
    · intro heq
      cases heq
    · exact hfree g hg
  · by_cases hgf : a.targetOf g = a.targetOf f
    · exact ⟨f, hf, hgf.symm, c, hgf ▸ hthere, hbytes⟩
    · rcases List.mem_cons.1 hg with rfl | hg
      · exact absurd rfl hgf
      · obtain ⟨k, hk, hkg, c', hc', hsource⟩ := h.done g hg
        exact ⟨k, hk, hkg, c', by rw [hother _ hgf, hc'], hsource⟩

/-- Files are written back, by induction on those that are left. -/
lemma copyOut_ok {dir : String} {files done fs : List String} {t : Tree} (hws : Path.Clear a.workspace)
    (hapart : a.Apart dir files) (hfs : ∀ f ∈ fs, f ∈ files) (h : a.WrittenBack dir files t done w.tree)
    (hr : runOn w (a.copyOut dir fs) = (.ok (), w')) :
    ∃ all, (∀ f, f ∈ done ∨ f ∈ fs → f ∈ all) ∧ a.WrittenBack dir files t all w'.tree := by
  induction fs generalizing w done with
  | nil =>
    rw [← (Prod.mk.inj hr).2]
    exact ⟨done, fun f hf => hf.elim id fun h => absurd h List.not_mem_nil, h⟩
  | cons f fs ih =>
    obtain ⟨target, v, x, ht, hd, hc, hrest⟩ := copyOut_cons hr
    have hparent := (Path.clear_parent (resolve_lexical w.rooted hws ht).1).1
    rw [World.located_absolute hparent.absolute] at hd
    have hstep := h.step w.rooted hws hapart (hfs f List.mem_cons_self) ht hd hc
    obtain ⟨all, hall, hback⟩ := ih (fun g hg => hfs g (List.mem_cons_of_mem f hg)) hstep hrest
    refine ⟨all, fun g hg => hall g ?_, hback⟩
    rcases hg with hg | hg
    · exact .inl (List.mem_cons_of_mem f hg)
    · exact (List.mem_cons.1 hg).elim (fun h => .inl (h ▸ List.mem_cons_self)) .inr

/-- Digests have digits. -/
lemma sha256_ne_empty (bytes : ByteArray) : Digest.sha256 bytes ≠ "" := by
  have hword : ∀ x, Digest.hexWord x ≠ [] := by
    intro x h
    rw [Digest.hexWord, List.append_eq_nil_iff] at h
    rw [h.2] at h
    exact absurd h.1 (by decide)
  intro h
  rw [← String.toList_inj, Digest.sha256, String.toList_ofList, Digest.State.words, List.flatMap_cons] at h
  exact hword _ (List.append_eq_nil_iff.1 h).1

/-! ### Restoring what was archived -/

/-- The steps in which a backup is restored. -/
lemma restore_steps {name : String} (h : runOn w (a.restore name) = (.ok b, w')) :
    runOn w (a.find name) = (.ok b, w) ∧ runOn w (problems b (Path.join b.path filesName) b.files) = (.ok [], w) ∧
      runOn w (a.copyOut (Path.join b.path filesName) b.files) = (.ok (), w') := by
  unfold Archive.restore at h
  obtain ⟨c, u, hfind, h⟩ := of_bind_ok h
  have hu : u = w := (looks_find a name).eq hfind
  rw [hu] at hfind h
  obtain ⟨wrong, v, hverify, h⟩ := of_bind_ok h
  have hv : v = w := (looks_verify a name).eq hverify
  rw [hv] at hverify h
  obtain ⟨c', v', hfind', hproblems⟩ := of_bind_ok hverify
  rw [hfind] at hfind'
  obtain ⟨hc, rfl⟩ := Prod.mk.inj hfind'
  obtain rfl := Except.ok.inj hc
  rw [runOn_ite] at h
  split at h
  · rename_i hempty
    obtain ⟨⟨⟩, x, hcopy, h⟩ := of_bind_ok h
    obtain ⟨hb, rfl⟩ := Prod.mk.inj h
    obtain rfl := Except.ok.inj hb
    rw [List.isEmpty_iff.1 hempty] at hproblems
    exact ⟨hfind, hproblems, of_told_ok hcopy⟩
  · exact absurd (Prod.mk.inj h).1 nofun

/-- Restoring takes nothing away. -/
lemma stays_restore {name : String} (h : runOn w (a.restore name) = (.ok b, w')) : Stays w.tree w'.tree :=
  stays_copyOut (restore_steps h).2.2

/-- A backup whose archived copies are right is restored when they can be copied out. -/
lemma restore_of_steps {name : String} (hfind : runOn w (a.find name) = (.ok b, w))
    (hproblems : runOn w (problems b (Path.join b.path filesName) b.files) = (.ok [], w))
    (hcopy : runOn w (a.copyOut (Path.join b.path filesName) b.files) = (.ok (), w')) :
    runOn w (a.restore name) = (.ok b, w') := by
  have hverify : runOn w (a.verify name) = (.ok [], w) := by
    rw [Archive.verify, runOn_bind_ok _ hfind]
    exact hproblems
  have htold : ∀ meant wrap, runOn w (told meant wrap (a.copyOut (Path.join b.path filesName) b.files)) = (.ok (), w') :=
    fun meant wrap => by
      rw [runOn_told, hcopy]
      rfl
  rw [Archive.restore, runOn_bind_ok _ hfind, runOn_bind_ok _ hverify]
  exact runOn_bind_ok _ (htold _ _)

/-- The directory of the archived copies of a backup that was made. -/
lemma copies_created {w₁ : World} {files : List String} {description : String} (ha : Path.Clear a.root)
    (hws : Path.Clear a.workspace) (hcreate : runOn w (a.create files description) = (.ok b, w₁)) :
    Path.Clear (Path.join b.path filesName) ∧
      Path.lexical (Path.join b.path filesName) = a.placeOf b.name ++ [filesName] := by
  obtain ⟨n, hmade⟩ := create_ok ha hws hcreate
  have hname : b.name = nameOf w.now n := by rw [hmade.said]
  have hpath : b.path = Path.join a.root b.name := by rw [hmade.said]
  obtain ⟨hplace, hplace'⟩ := (sites_nameOf ha w.now n).place
  rw [← hname] at hplace hplace'
  rw [hpath, ← hplace']
  exact hplace.child (by decide) (by decide)

/-- A backup of files that stand directly in the workspace is restored when its copies are left as they were made and can
be copied out. -/
lemma restore_kept {w₁ w₂ : World} {files : List String} {description : String} (ha : Path.Clear a.root)
    (hws : Path.Clear a.workspace) (h : a.Holds w bs) (hw : Timely w)
    (hcreate : runOn w (a.create files description) = (.ok b, w₁))
    (hkept : ∀ p, Path.lexical a.root <+: p → w₂.tree.get? p = w₁.tree.get? p) (hn : ∀ f ∈ b.files, isName f = true)
    (hcopied : ∀ f ∈ b.files, ∃ c, w₁.tree.get? (a.placeOf b.name ++ [filesName, f]) = some (.file c) ∧
      w.tree.bytes? (a.targetOf f) = some c)
    (hcopy : runOn w₂ (a.copyOut (Path.join b.path filesName) b.files) = (.ok (), w')) :
    runOn w₂ (a.restore b.name) = (.ok b, w') := by
  obtain ⟨n, hmade⟩ := create_ok ha hws hcreate
  have hfiles : b.files = a.wanted w.here files := by rw [hmade.said]
  obtain ⟨hdir, hdir'⟩ := copies_created ha hws hcreate
  have hproblems : runOn w₂ (problems b (Path.join b.path filesName) b.files) = (.ok [], w₂) := by
    refine problems_granted hdir hn fun f hf => ?_
    obtain ⟨c, hc, hold⟩ := hcopied f hf
    refine ⟨c, ?_, hmade.lookup (nodup_wanted a w.here files) (hfiles ▸ hf) hold⟩
    rw [hdir', List.append_assoc, hkept _ (by rw [placeOf, List.append_assoc]; exact List.prefix_append _ _)]
    exact hc
  have hheld := (h.create ha hws hw hcreate).1.congr fun m _ => Tree.bytes?_congr (hkept _ (root_prefix_manifestPlace a m))
  exact restore_of_steps (hheld.finds ha (List.mem_append_right _ (List.mem_singleton.2 rfl))) hproblems hcopy

/-- A backup of files that stand directly in the workspace is restored without a fault, as long as its copies are left as
they were made, the workspace is there and no directory stands where one of the files goes. -/
lemma restore_granted {w₁ w₂ : World} {files : List String} {description : String} (ha : Path.Clear a.root)
    (hws : Path.Clear a.workspace) (hW : Path.lexical a.workspace ≠ []) (h : a.Holds w bs) (hw : Timely w)
    (hcreate : runOn w (a.create files description) = (.ok b, w₁))
    (hkept : ∀ p, Path.lexical a.root <+: p → w₂.tree.get? p = w₁.tree.get? p) (hn : ∀ f ∈ b.files, isName f = true)
    (hcopied : ∀ f ∈ b.files, ∃ c, w₁.tree.get? (a.placeOf b.name ++ [filesName, f]) = some (.file c) ∧
      w.tree.bytes? (a.targetOf f) = some c)
    (hroot : w₂.tree.get? (Path.lexical a.workspace) = some .directory)
    (hfree : ∀ f ∈ b.files, w₂.tree.get? (Path.lexical a.workspace ++ [f]) ≠ some .directory) :
    ∃ t, runOn w₂ (a.restore b.name) = (.ok b, { w₂ with tree := t }) := by
  obtain ⟨n, hmade⟩ := create_ok ha hws hcreate
  have hname : b.name = nameOf w.now n := by rw [hmade.said]
  have hfiles : b.files = a.wanted w.here files := by rw [hmade.said]
  obtain ⟨hdir, hdir'⟩ := copies_created ha hws hcreate
  have hcopies : ∀ f ∈ b.files, ∃ c, w₂.tree.get? (Path.lexical (Path.join b.path filesName) ++ [f]) = some (.file c) :=
    fun f hf => by
      rw [hdir', List.append_assoc, hkept _ (by rw [placeOf, List.append_assoc]; exact List.prefix_append _ _)]
      exact (hcopied f hf).imp fun c hc => hc.1
  have hback : ∃ t, runOn w₂ (a.copyOut (Path.join b.path filesName) b.files) = (.ok (), { w₂ with tree := t }) := by
    rcases hfs : b.files with _ | ⟨f, fs⟩
    · exact ⟨w₂.tree, rfl⟩
    · have hf : f ∈ b.files := by rw [hfs]; exact List.mem_cons_self
      have hapart : Path.lexical (Path.join b.path filesName) ≠ Path.lexical a.workspace := fun heq => by
        obtain ⟨hproper, hslash, -⟩ := Tree.proper_of_isName (hn f hf)
        refine hmade.beside f (hfiles ▸ hf) ?_
        rw [targetOf, (hws.child hproper hslash).2, ← heq, hdir', hname, List.append_assoc]
        exact List.prefix_append _ _
      rw [← hfs]
      exact copyOut_granted hdir hws hW hapart hroot hn hfree hcopies
  obtain ⟨t, hcopy⟩ := hback
  exact ⟨t, restore_kept ha hws h hw hcreate hkept hn hcopied hcopy⟩

/-- What is read of a backup under its name, wherever its manifest has been left as it was written. -/
lemma Assembled.find (ha : Path.Clear a.root) {here : String} {old : Place → Option ByteArray} {v : World}
    {now : Instant} {n : Nat} {description : String} {files : List String} (hfiles : files.Nodup)
    (hb : a.Assembled here old v now (nameOf now n) description files b)
    (hw : w.tree.bytes? (a.manifestPlace b.name) = v.tree.bytes? (a.manifestPlace b.name)) {b' : Backup}
    (h : runOn w (a.find b.name) = (.ok b', w')) :
    b'.files = files ∧ b'.digests = b.digests ∧ b'.path = Path.join a.root (nameOf now n) := by
  have hname : b.name = nameOf now n := by rw [hb.said]
  have hfs : b.files = files := by rw [hb.said]
  obtain ⟨-, -, hproper, hslash, u, hu⟩ := find_ok ha h
  have hwritable : b.Writable := ⟨hb.writable, by rwa [hb.digested]⟩
  have hmanifest := hb.manifest
  rw [← hname, ← hw] at hmanifest
  rw [runOn_readManifest ha hproper hslash hwritable hmanifest, hname] at hu
  rw [← hfs]
  exact ofManifest_files hwritable (Prod.mk.inj hu).1

/-- An archived copy that is fit to be restored: it lies in the backup's directory and has bytes of one of the listed
files, which have the digest of the bytes that its own file had. -/
structure Fit (a : Archive) (old : Place → Option ByteArray) (t : Tree) (name : String) (files : List String)
    (f : String) : Prop where
  inside : ∃ r, a.copyOf name f = a.placeOf name ++ filesName :: r
  bytes : ∃ c, t.bytes? (a.copyOf name f) = some c ∧ a.Known old files c ∧
    ∀ c', old (a.targetOf f) = some c' → Digest.sha256 c = Digest.sha256 c'

/-- The archived copies that were checked are fit to be restored. -/
lemma Assembled.fit (ha : Path.Clear a.root) {here : String} {old : Place → Option ByteArray} {v : World}
    {now : Instant} {n : Nat} {description : String} {files : List String} (hfiles : files.Nodup)
    (hb : a.Assembled here old v now (nameOf now n) description files b)
    (hstore : ∀ p, Path.lexical a.root <+: p → w.tree.bytes? p = v.tree.bytes? p) {b' : Backup}
    (hd : b'.digests = b.digests)
    (h : runOn w (problems b' (Path.join (Path.join a.root (nameOf now n)) filesName) files) = (.ok [], w')) :
    ∀ f ∈ files, a.Fit old w.tree (nameOf now n) files f := by
  intro f hf
  have hsites := sites_nameOf ha now n
  obtain ⟨hclear, -⟩ := hsites.place.1.child (n := filesName) (by decide) (by decide)
  obtain ⟨c, hc, hdigest⟩ := of_problems_nil hclear.absolute h f hf
  rw [← copyOf] at hc
  have hinside : ∃ r, a.copyOf (nameOf now n) f = a.placeOf (nameOf now n) ++ filesName :: r := by
    refine (copyOf_cases ha (hb.below f hf)).resolve_right ?_
    rintro ⟨r, hr⟩
    -- Nothing is left where copies were put before they were moved.
    rw [hr, hstore _ (by rw [stagingPlace, List.append_assoc]; exact List.prefix_append _ _), Tree.bytes?, hb.gone] at hc
    cases hc
  obtain ⟨r, hr⟩ := hinside
  have hknown : a.Known old files c := by
    rw [hr, hstore _ (by rw [placeOf, List.append_assoc]; exact List.prefix_append _ _)] at hc
    exact hb.inside r c hc
  obtain ⟨d, hx⟩ : ∃ d, (f, d) ∈ b.digests := by
    rw [← hb.digested] at hf
    obtain ⟨⟨g, d⟩, hx, rfl⟩ := List.mem_map.1 hf
    exact ⟨d, hx⟩
  obtain ⟨c₁, -, hd₁, hsame⟩ := hb.digests _ hx
  dsimp only at hd₁ hsame
  have hlookup : b.digests.lookup f = some d := (Tree.lookup_iff_mem (by rwa [hb.digested])).2 hx
  refine ⟨⟨r, hr⟩, c, hc, hknown, fun c' hc' => ?_⟩
  rw [hsame c' hc', ← hd₁]
  exact hdigest d (by rw [hd, hlookup]) (by rw [hd₁]; exact sha256_ne_empty c₁)

/-- Whether digests tell the bytes of files apart. -/
def Distinguished (a : Archive) (t : Tree) (files : List String) : Prop :=
  ∀ f ∈ files, ∀ g ∈ files, ∀ c c', t.bytes? (a.targetOf f) = some c → t.bytes? (a.targetOf g) = some c' →
    Digest.sha256 c = Digest.sha256 c' → c = c'

/-- Whether files have the bytes again that they had in a tree, and all other files are as they were just before. -/
structure Restored (a : Archive) (files : List String) (old before after : Tree) : Prop where
  listed : ∀ f ∈ files, ∃ c, after.bytes? (a.targetOf f) = some c ∧
    ∀ c₀, old.bytes? (a.targetOf f) = some c₀ → c = c₀
  others : ∀ p, (∀ f ∈ files, p ≠ a.targetOf f) → after.bytes? p = before.bytes? p

section
variable {w₀ w₁ w₂ w₃ : World} {description : String} {files : List String} {b' : Backup}

/-- What is read of a backup that was made, as long as the archive is left alone. -/
lemma find_made (ha : Path.Clear a.root) (hws : Path.Clear a.workspace)
    (hcreate : runOn w₀ (a.create files description) = (.ok b, w₁))
    (hstore : ∀ p, Path.lexical a.root <+: p → w₂.tree.bytes? p = w₁.tree.bytes? p)
    (hfind : runOn w₂ (a.find b.name) = (.ok b', w₃)) :
    b'.files = b.files ∧ b'.digests = b.digests ∧ b'.path = Path.join a.root b.name := by
  obtain ⟨n, hb⟩ := create_ok ha hws hcreate
  have hname : b.name = nameOf w₀.now n := by rw [hb.said]
  have hfiles : b.files = a.wanted w₀.here files := by rw [hb.said]
  rw [hfiles, hname]
  exact hb.find ha (nodup_wanted a w₀.here files) (hstore _ (root_prefix_manifestPlace a b.name)) hfind

/-- Where no directory stands in the way, a backup is restored exactly. -/
lemma restored_of_free (ha : Path.Clear a.root) (hws : Path.Clear a.workspace)
    (hcreate : runOn w₀ (a.create files description) = (.ok b, w₁)) (hdigest : a.Distinguished w₀.tree b.files)
    (hstore : ∀ p, Path.lexical a.root <+: p → w₂.tree.bytes? p = w₁.tree.bytes? p)
    (hrestore : runOn w₂ (a.restore b.name) = (.ok b', w₃))
    (hfree : ∀ f ∈ b.files, w₂.tree.get? (a.targetOf f) ≠ some .directory) :
    a.Restored b.files w₀.tree w₂.tree w₃.tree := by
  obtain ⟨hfind, hproblems, hcopy⟩ := restore_steps hrestore
  obtain ⟨hfiles', hdigests', hpath'⟩ := find_made ha hws hcreate hstore hfind
  obtain ⟨n, hb⟩ := create_ok ha hws hcreate
  have hname : b.name = nameOf w₀.now n := by rw [hb.said]
  have hfs : b.files = a.wanted w₀.here files := by rw [hb.said]
  rw [hfiles', hpath', hname, hfs] at hproblems hcopy
  rw [hfs] at hdigest hfree ⊢
  have hfit := hb.fit ha (nodup_wanted a w₀.here files) hstore hdigests' hproblems
  have hapart : a.Apart (Path.join (Path.join a.root (nameOf w₀.now n)) filesName) (a.wanted w₀.here files) := by
    refine ⟨hb.apart, fun f hf g hg heq => ?_⟩
    obtain ⟨r, hr⟩ := (hfit f hf).inside
    refine hb.beside g hg ?_
    rw [← heq, ← copyOf, hr]
    exact List.prefix_append _ _
  obtain ⟨all, hall, hback⟩ := copyOut_ok hws hapart (fun f hf => hf)
    ⟨fun _ _ => rfl, hfree, fun f hf => absurd hf List.not_mem_nil⟩ hcopy
  refine ⟨fun f hf => ?_, hback.outside⟩
  obtain ⟨g, hg, hgf, c, hc, hsource⟩ := hback.done f (hall f (.inr hf))
  obtain ⟨c₁, hc₁, ⟨k, hk, hkc⟩, hsha⟩ := (hfit g hg).bytes
  rw [copyOf, hsource] at hc₁
  obtain rfl := Option.some.inj hc₁
  refine ⟨c, hc, fun c₀ hc₀ => ?_⟩
  rw [← hgf] at hc₀
  exact hdigest k hk g hg c c₀ hkc hc₀ (hsha c₀ hc₀)

/-- **A backup is restored exactly, unless a directory stands where one of its files goes.** The archive is left alone
between its creation and its restoring, and digests tell the listed files apart; then every listed file has its bytes
again and no other file changes, just when no such directory was there. -/
theorem restored_iff {root workspace : String}
    (hcreate : runOn w₀ ((Archive.at w₀.here root workspace).create files description) = (.ok b, w₁))
    (hdigest : (Archive.at w₀.here root workspace).Distinguished w₀.tree b.files)
    (hstore : ∀ p, Path.lexical (Archive.at w₀.here root workspace).root <+: p → w₂.tree.bytes? p = w₁.tree.bytes? p)
    (hrestore : runOn w₂ ((Archive.at w₀.here root workspace).restore b.name) = (.ok b', w₃)) :
    (Archive.at w₀.here root workspace).Restored b.files w₀.tree w₂.tree w₃.tree ↔
      ∀ f ∈ b.files, w₂.tree.get? ((Archive.at w₀.here root workspace).targetOf f) ≠ some .directory := by
  obtain ⟨ha, hws⟩ := clear_at w₀ root workspace
  constructor
  · rintro ⟨hall, -⟩ f hf hdir
    obtain ⟨c, hc, -⟩ := hall f hf
    have hstays := (stays_restore hrestore).directories _ hdir
    exact absurd ((Tree.bytes?_eq_some.1 hc).symm.trans hstays) nofun
  · exact restored_of_free ha hws hcreate hdigest hstore hrestore

end

/-! ### A restored file, and one that is not -/

/-- A workspace with one file. -/
def workshop : World where
  tree := (Tree.empty.put ["w"] .directory).put ["w", "a"] (.file ⟨#[120]⟩)

/-- The archive of the workspace. -/
def shelf : Archive := Archive.at workshop.here "w/b" "w"

lemma clear_shelf : Path.Clear shelf.root ∧ Path.Clear shelf.workspace := clear_at workshop "w/b" "w"

lemma root_shelf : Path.lexical shelf.root = ["w", "b"] := by decide

lemma target_shelf : shelf.targetOf "a" = ["w", "a"] := by decide

lemma wanted_shelf : shelf.wanted workshop.here ["a"] = ["a"] :=
  wanted_clean workshop.rooted (.of_all (by decide)) (by decide)

lemma holds_workshop : shelf.Holds workshop [] := holds_nowhere (by decide)

lemma timely_workshop : Timely workshop := ⟨rfl, by decide⟩

/-- What changes only the file leaves the archive alone. -/
lemma beside_shelf {p : Place} (hp : Path.lexical shelf.root <+: p) : p ≠ Path.lexical "/w/a" := by
  rintro rfl
  rw [root_shelf, List.prefix_iff_eq_take] at hp
  exact absurd hp (by decide)

/-- The archive can be made. -/
lemma ensure_workshop : ∃ t, runOn workshop shelf.ensure = (.ok (), { workshop with tree := t }) ∧ shelf.Bare t ∧
    ∀ p, p ≠ Path.lexical shelf.root → t.get? p = workshop.tree.get? p :=
  ensure_new clear_shelf.1 "/w" "b" ⟨by decide, by decide⟩ (by decide) (by decide) (by decide) (by decide)

lemma lexical_workspace_shelf : Path.lexical shelf.workspace = ["w"] := by decide

lemma lexical_file_shelf : Path.lexical "/w/a" = ["w"] ++ ["a"] := by decide

lemma isName_a : isName "a" = true := by decide

/-- The file is archived. -/
lemma archived_workshop : ∃ b u,
    runOn workshop (shelf.create ["a"] "") = (.ok b, { workshop with tree := u, draws := workshop.draws + 1 }) ∧
    b.files = ["a"] ∧ u.get? (shelf.placeOf b.name ++ [filesName, "a"]) = some (.file ⟨#[120]⟩) ∧
    u.get? ["w", "a"] = some (.file ⟨#[120]⟩) := by
  obtain ⟨ha, hws⟩ := clear_shelf
  obtain ⟨t, hensure, hbare, hother⟩ := ensure_workshop
  have hfile : t.get? ["w", "a"] = some (.file ⟨#[120]⟩) := by
    rw [hother _ (by rw [root_shelf]; decide)]
    decide
  have hready : shelf.Ready (nameOf workshop.now 1) (shelf.wanted workshop.here ["a"]) t := by
    rw [wanted_shelf]
    refine ⟨hbare.vacant (by decide), fun f hf => ?_, fun f hf => ?_⟩
    · rw [List.mem_singleton.1 hf]
      exact isName_a
    · rw [List.mem_singleton.1 hf, lexical_workspace_shelf]
      exact ⟨_, hfile⟩
  obtain ⟨b, u, hcreate, hname, hout, hcopied⟩ :=
    holds_workshop.create_granted ha hws (by simp [lexical_workspace_shelf]) (by decide) ["a"] "" hensure hready
  obtain ⟨n, hmade⟩ := create_ok ha hws hcreate
  refine ⟨b, u, hcreate, ?_, ?_, ?_⟩
  · rw [hmade.said]
    exact wanted_shelf
  · have hcopy := hcopied "a" (by rw [wanted_shelf]; exact List.mem_singleton.2 rfl)
    rw [hname]
    exact hcopy.trans (by rw [lexical_workspace_shelf]; exact hfile)
  · rw [hout _ fun h => beside_shelf ((List.prefix_append _ _).trans h) (by decide), hfile]

/-- A file is archived, rewritten and restored. -/
lemma rewritten_steps : ∃ b w₁ w₂ w₃, runOn workshop (shelf.create ["a"] "") = (.ok b, w₁) ∧
    runOn w₁ (writeBytes "/w/a" ⟨#[121]⟩) = (.ok (), w₂) ∧
    (∀ p, Path.lexical shelf.root <+: p → w₂.tree.bytes? p = w₁.tree.bytes? p) ∧
    runOn w₂ (shelf.restore b.name) = (.ok b, w₃) ∧ b.files = ["a"] := by
  obtain ⟨ha, hws⟩ := clear_shelf
  obtain ⟨b, u, hcreate, hfiles, hplaced, hold⟩ := archived_workshop
  have hdir : u.get? ["w"] = some .directory := Tree.get?_above (List.cons_ne_nil "a" []) hold
  have hclear : Path.Clear "/w/a" := ⟨by decide, by decide⟩
  have hwrite := Tree.write_named (c := ⟨#[121]⟩) (Tree.zero_notMem_named hclear lexical_file_shelf isName_a hdir)
    (Tree.place_named hclear (by decide) lexical_file_shelf isName_a hdir) hdir (by simp [hold])
  have hput := Tree.get?_put_file (c := ⟨#[121]⟩) isName_a hdir (by simp [hold])
  generalize u.put (["w"] ++ ["a"]) (.file ⟨#[121]⟩) = v at hwrite hput
  have hchange : runOn { workshop with tree := u, draws := workshop.draws + 1 } (writeBytes "/w/a" ⟨#[121]⟩) =
      (.ok (), { workshop with tree := v, draws := workshop.draws + 1 }) := by
    rw [runOn_writeBytes, World.located_absolute hclear.absolute]
    exact runOn_edit_ok hwrite
  have hkept : ∀ p, Path.lexical shelf.root <+: p → v.get? p = u.get? p := fun p hp => by
    rw [hput, if_neg]
    exact lexical_file_shelf ▸ beside_shelf hp
  have hall : ∀ f ∈ b.files, f = "a" := fun f hf => by
    rw [hfiles] at hf
    exact List.mem_singleton.1 hf
  obtain ⟨x, hrestore⟩ : ∃ x, runOn { workshop with tree := v, draws := workshop.draws + 1 } (shelf.restore b.name) =
      (.ok b, { workshop with tree := x, draws := workshop.draws + 1 }) := by
    refine restore_granted ha hws (by simp [lexical_workspace_shelf]) holds_workshop timely_workshop hcreate hkept
      (fun f hf => ?_) (fun f hf => ?_) ?_ fun f hf => ?_
    · rw [hall f hf]
      exact isName_a
    · rw [hall f hf, target_shelf]
      exact ⟨⟨#[120]⟩, hplaced, by decide⟩
    · rw [lexical_workspace_shelf]
      simp [hput, hdir]
    · rw [hall f hf, lexical_workspace_shelf]
      simp [hput]
  exact ⟨b, _, _, _, hcreate, hchange, fun p hp => Tree.bytes?_congr (hkept p hp), hrestore, hfiles⟩

/-- A file that was rewritten has its bytes again when its backup is restored. -/
theorem restored_iff_rewritten : ∃ b w₁ w₂ b' w₃, runOn workshop (shelf.create ["a"] "") = (.ok b, w₁) ∧
    shelf.Distinguished workshop.tree b.files ∧
    (∀ p, Path.lexical shelf.root <+: p → w₂.tree.bytes? p = w₁.tree.bytes? p) ∧
    runOn w₂ (shelf.restore b.name) = (.ok b', w₃) ∧ w₂.tree.bytes? (shelf.targetOf "a") = some ⟨#[121]⟩ ∧
    shelf.Restored b.files workshop.tree w₂.tree w₃.tree := by
  obtain ⟨b, w₁, w₂, w₃, hcreate, hchange, hstore, hrestore, hfiles⟩ := rewritten_steps
  have hbytes : w₂.tree.bytes? (shelf.targetOf "a") = some ⟨#[121]⟩ := by
    rw [runOn_writeBytes, World.located_absolute (by decide)] at hchange
    obtain ⟨t, ht, rfl⟩ := of_edit_ok hchange
    rw [Tree.bytes?_eq_some, (Tree.write_ok ht).2.after, if_pos]
    decide
  have hdigest : shelf.Distinguished workshop.tree b.files := by
    rw [hfiles]
    intro f hf g hg c c' hc hc' _
    rw [List.mem_singleton.1 hf] at hc
    rw [List.mem_singleton.1 hg, hc] at hc'
    exact Option.some.inj hc'
  refine ⟨b, w₁, w₂, b, w₃, hcreate, hdigest, hstore, hrestore, hbytes,
    (restored_iff hcreate hdigest hstore hrestore).2 fun f hf hdir => ?_⟩
  rw [hfiles, List.mem_singleton] at hf
  subst hf
  exact absurd ((Tree.bytes?_eq_some.1 hbytes).symm.trans hdir) nofun

/-- A backup can be restored without a fault and its file is not there: a directory that took the file's place has taken
the copy in. -/
theorem not_restored_shadowed : ∃ b w₁ w₂ w₃, runOn workshop (shelf.create ["a"] "") = (.ok b, w₁) ∧
    (∀ p, Path.lexical shelf.root <+: p → w₂.tree.bytes? p = w₁.tree.bytes? p) ∧
    runOn w₂ (shelf.restore b.name) = (.ok b, w₃) ∧ b.files = ["a"] ∧
    workshop.tree.bytes? (shelf.targetOf "a") = some ⟨#[120]⟩ ∧
    w₃.tree.get? (shelf.targetOf "a") = some .directory ∧ ¬ shelf.Restored b.files workshop.tree w₂.tree w₃.tree := by
  obtain ⟨ha, hws⟩ := clear_shelf
  obtain ⟨b, u, hcreate, hfiles, hplaced, hold⟩ := archived_workshop
  obtain ⟨target, htarget, hclear, hl, hname⟩ :=
    resolve_child workshop.here hws (by simp [lexical_workspace_shelf]) isName_a
  rw [lexical_workspace_shelf] at hl
  have hroot : u.get? ["w"] = some .directory := Tree.get?_above (List.cons_ne_nil "a" []) hold
  have hput := Tree.get?_replaced (p := ["w"]) isName_a hold
  generalize (u.erase (["w"] ++ ["a"])).put (["w"] ++ ["a"]) .directory = v at hput
  have hkept : ∀ p, Path.lexical shelf.root <+: p → v.get? p = u.get? p := fun p hp => by
    rw [hput, if_neg]
    exact lexical_file_shelf ▸ beside_shelf hp
  obtain ⟨hdir, hdir'⟩ := copies_created ha hws hcreate
  obtain ⟨hproper, hslash, -⟩ := Tree.proper_of_isName isName_a
  have hcopyname : Path.name (Path.join (Path.join b.path filesName) "a") = "a" :=
    Path.name_join hdir.absolute hslash
  have hread : v.read (Path.join (Path.join b.path filesName) "a") = .ok ⟨#[120]⟩ := by
    refine Tree.read_child hdir hproper hslash (Tree.bytes?_eq_some.2 ?_)
    rw [hdir', List.append_assoc, hkept _ (by rw [placeOf, List.append_assoc]; exact List.prefix_append _ _)]
    exact hplaced
  have hcopy := Tree.copy_into hclear (by rw [hcopyname]; exact isName_a) (by rw [hl, hput, if_pos rfl])
    (by rw [hl, hcopyname, hput, if_neg (by decide), Tree.get?_below_file hold (by decide) (by decide)]) hread
  have hback := runOn_copyOut_cons (a := shelf) (w := { workshop with tree := v, draws := 1 }) [] htarget
    (runOn_ensureDirectories_parent hclear hname hl (by rw [hput, if_neg (by decide), hroot])) hcopy
  have hrestore := restore_kept ha hws holds_workshop timely_workshop hcreate hkept
    (fun f hf => by rw [hfiles, List.mem_singleton] at hf; exact hf ▸ isName_a)
    (fun f hf => by
      rw [hfiles, List.mem_singleton] at hf
      rw [hf, target_shelf]
      exact ⟨⟨#[120]⟩, hplaced, by decide⟩)
    (by rw [hfiles]; exact hback)
  have hdirectory := (stays_restore hrestore).directories (shelf.targetOf "a") (by
    rw [target_shelf, hput, if_pos (by decide)])
  refine ⟨b, _, _, _, hcreate, fun p hp => Tree.bytes?_congr (hkept p hp), hrestore, hfiles, ?_, hdirectory, fun h => ?_⟩
  · rw [target_shelf]
    decide
  · obtain ⟨c, hc, -⟩ := h.listed "a" (by rw [hfiles]; exact List.mem_singleton.2 rfl)
    cases (Tree.bytes?_eq_some.1 hc).symm.trans hdirectory

end Ratchet.Archive
