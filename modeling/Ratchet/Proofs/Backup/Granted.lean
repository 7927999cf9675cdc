import Ratchet.Proofs.Backup.Creation
import Ratchet.Proofs.Path.Clean
import Ratchet.Proofs.Path.Within
import Ratchet.Proofs.Tree.Granted

/-!
Backups that are granted.

A backup is put together when the root of the archive is there, nothing stands where that is done and where the backup
is moved to (`Vacant`), and the files could be copied in (`Staged`); then the tree that is left is known
(`Staged.create`). Files that stand directly in the workspace can be copied in (`Ready`). Nothing but the directory of
their backup is new, and it has a copy of every file (`Holds.create_granted`). The copies can be written back wherever no
directory stands.
-/

namespace Ratchet.Archive

open Act

variable {a : Archive} {w : World} {t v : Tree} {b : Backup} {bs : List Backup} {name dir f n : String}
  {files fs : List String}

/-- A relative path that leads below a directory is found there. -/
lemma resolve_below (here : String) (hd : Path.Clear dir) (hne : Path.lexical dir ≠ [])
    (hrel : Path.isAbsolute f = false) {p : Place} (hl : Path.follow (Path.lexical dir) (Path.components f) = p)
    (hbelow : Path.lexical dir <+: p) :
    ∃ s, Workspace.resolve here dir f = .ok (Path.normal s) ∧ Path.isAbsolute s = true ∧ Path.lexical s = p := by
  have htarget : Path.target dir f = p := by
    rw [Path.target, if_neg (Bool.eq_false_iff.1 hrel), Path.base_eq, hl]
  have hdecided := Workspace.decided_of_relative here hd.absolute (Path.base_eq dir ▸ hne) hrel
  have hfound := hdecided.within (by rwa [Path.base_eq, htarget])
  rw [← Path.normal_join hd.absolute] at hfound
  exact ⟨_, hfound, Path.isAbsolute_join f (Path.isAbsolute_normal hd.absolute),
    (Path.target_eq hd.absolute).symm.trans htarget⟩

/-- A name is found directly in a directory. -/
lemma resolve_child (here : String) (hd : Path.Clear dir) (hne : Path.lexical dir ≠ [])
    (hn : isName n = true) : ∃ p, Workspace.resolve here dir n = .ok p ∧ Path.Clear p ∧
      Path.lexical p = Path.lexical dir ++ [n] ∧ Path.name p ≠ "" := by
  obtain ⟨⟨h1, h2, h3⟩, hslash, -⟩ := Tree.proper_of_isName hn
  obtain ⟨s, hs, habs, hl⟩ := resolve_below here hd hne (Path.isAbsolute_of_slashless hslash)
    (p := Path.lexical dir ++ [n])
    (by simp [Path.components_of_slashless hslash, Path.follow, h1, h2, h3]) (List.prefix_append _ _)
  exact ⟨_, hs, Path.clear_normal habs, by rw [Path.lexical_normal habs, hl], Path.name_normal habs (by simp [hl])⟩

/-- A clean path is wanted as it is. -/
lemma wanted_clean {here : String} (hh : Path.isAbsolute here = true) (h : Path.Clean f) (hf : f ≠ "") :
    a.wanted here [f] = [f] := by
  have hclean : Path.clean here a.workspace f = f := h.clean_eq hh
  simp [wanted, hclean, hf]

/-! ### The root -/

/-- An archive is ready when its root can be made. -/
lemma ensure_granted (ha : Path.Clear a.root) (h : w.tree.ensureDirectories a.root = .ok t) :
    runOn w a.ensure = (.ok (), { w with tree := t }) := by
  rw [ensure, runOn_told, runOn_ensureDirectories, World.located_absolute ha.absolute,
    runOn_edit_ok (g := (·.ensureDirectories a.root)) h]
  rfl

/-- An archive that is there is ready. -/
lemma ensure_there (ha : Path.Clear a.root) (h : w.tree.get? (Path.lexical a.root) = some .directory) :
    runOn w a.ensure = (.ok (), w) :=
  ensure_granted ha (Tree.ensureDirectories_there ha h)

/-- Whether the root of an archive is there and nothing lies in it. -/
structure Bare (a : Archive) (t : Tree) : Prop where
  root : t.get? (Path.lexical a.root) = some .directory
  empty : ∀ n r, t.get? (a.placeOf n ++ r) = none

lemma Bare.holds (h : a.Bare w.tree) : a.Holds w [] :=
  holds_nothing fun n => by rw [Tree.bytes?, manifestPlace, h.empty]

/-- An archive whose root is to lie in a directory that is there can be made. -/
lemma ensure_new (ha : Path.Clear a.root) (dir n : String) (hd : Path.Clear dir) (hn : isName n = true)
    (hroot : a.root = Path.join dir n)
    (h : w.tree.get? (Path.lexical dir) = some .directory) (hnone : w.tree.get? (Path.lexical dir ++ [n]) = none) :
    ∃ t, runOn w a.ensure = (.ok (), { w with tree := t }) ∧ a.Bare t ∧
      ∀ p, p ≠ Path.lexical a.root → t.get? p = w.tree.get? p := by
  obtain ⟨hproper, hslash, -⟩ := Tree.proper_of_isName hn
  have hensure := Tree.ensureDirectories_child hd hn h hnone
  have hput := Tree.get?_put_child (e := .directory) hn h hnone
  rw [← (hd.child hproper hslash).2, ← hroot] at hensure hput hnone
  refine ⟨w.tree.put (Path.lexical a.root) .directory, ensure_granted ha hensure, ⟨?_, fun m r => ?_⟩, fun p hp => ?_⟩
  · rw [hput, if_pos rfl]
  · rw [hput, placeOf, List.append_assoc, if_neg (by simp)]
    exact Tree.get?_below_none hnone (List.prefix_append _ _)
  · rw [hput, if_neg hp]

/-- So can one whose root is to lie in a directory that is to be made itself. -/
lemma ensure_below (ha : Path.Clear a.root) (dir m n : String) (hd : Path.Clear dir) (hm : isName m = true)
    (hn : isName n = true) (hroot : a.root = Path.join (Path.join dir m) n)
    (h : w.tree.get? (Path.lexical dir) = some .directory) (hnone : w.tree.get? (Path.lexical dir ++ [m]) = none) :
    ∃ t, runOn w a.ensure = (.ok (), { w with tree := t }) ∧ a.Bare t ∧
      ∀ p, ¬ Path.lexical dir ++ [m] <+: p → t.get? p = w.tree.get? p := by
  obtain ⟨hclear, -, hl⟩ := Tree.name_child hd hm
  obtain ⟨-, -, hl'⟩ := Tree.name_child hclear hn
  rw [hl] at hl'
  have hensure := Tree.ensureDirectories_below hd hm hn h hnone
  have hput := Tree.get?_put_child (e := .directory) hm h hnone
  generalize w.tree.put (Path.lexical dir ++ [m]) .directory = u at hensure hput
  have hput' := Tree.get?_put_child (e := .directory) hn ((hput _).trans (if_pos rfl)) (by
    rw [hput, if_neg (by simp)]
    exact Tree.get?_below_none hnone (List.prefix_append _ _))
  rw [← hl', ← hroot] at hensure hput'
  refine ⟨_, ensure_granted ha hensure, ⟨by rw [hput', if_pos rfl], fun k r => ?_⟩, fun p hp => ?_⟩
  · rw [hput', placeOf, List.append_assoc, if_neg (by simp), hroot, hl', List.append_assoc _ [n], hput, if_neg (by simp)]
    exact Tree.get?_below_none hnone (List.prefix_append _ _)
  · rw [hput', if_neg, hput, if_neg]
    · rintro rfl
      exact hp List.prefix_rfl
    · rintro rfl
      rw [hroot, hl'] at hp
      exact hp (List.prefix_append _ _)

/-- No directory is made for a file that goes directly into one. -/
lemma runOn_ensureDirectories_parent {path : String} {p : Place} (hc : Path.Clear path) (hname : Path.name path ≠ "")
    (hl : Path.lexical path = p ++ [n]) (hd : w.tree.get? p = some .directory) :
    runOn w (ensureDirectories (Path.parent path)) = (.ok (), w) := by
  obtain ⟨hparent, habove⟩ := Tree.directory_above hc hname hl hd
  rw [runOn_ensureDirectories, World.located_absolute hparent.absolute]
  exact runOn_edit_ok (Tree.ensureDirectories_there hparent habove)

/-! ### Copying in -/

/-- Whether files that stand directly in the workspace can be copied to a place. -/
structure Copyable (a : Archive) (d : Place) (files : List String) (t : Tree) : Prop where
  directory : t.get? d = some .directory
  named : ∀ f ∈ files, isName f = true
  free : ∀ f ∈ files, t.get? (d ++ [f]) = none
  there : ∀ f ∈ files, ∃ c, t.get? (Path.lexical a.workspace ++ [f]) = some (.file c)

/-- After one file has been copied, the others can be copied as they were. -/
lemma Copyable.next {d : Place} {f : String} {c : ByteArray} {u : Tree} (h : a.Copyable d (f :: fs) t) (hf : f ∉ fs)
    (hput : ∀ q, u.get? q = if q = d ++ [f] then some (.file c) else t.get? q) :
    a.Copyable d fs u ∧ ∀ g ∈ fs, u.get? (Path.lexical a.workspace ++ [g]) = t.get? (Path.lexical a.workspace ++ [g]) := by
  have hkept : ∀ g ∈ fs, u.get? (Path.lexical a.workspace ++ [g]) = t.get? (Path.lexical a.workspace ++ [g]) := by
    intro g hg
    obtain ⟨c', hc'⟩ := h.there g (List.mem_cons_of_mem f hg)
    rw [hput, if_neg]
    intro heq
    rw [heq, h.free f List.mem_cons_self] at hc'
    cases hc'
  refine ⟨⟨?_, fun g hg => h.named g (List.mem_cons_of_mem f hg), fun g hg => ?_, fun g hg => ?_⟩, hkept⟩
  · rw [hput, if_neg (by simp), h.directory]
  · rw [hput, if_neg, h.free g (List.mem_cons_of_mem f hg)]
    intro heq
    obtain rfl : g = f := by simpa using heq
    exact hf hg
  · rw [hkept g hg]
    exact h.there g (List.mem_cons_of_mem f hg)

/-- One file is copied to a name in a directory, and then the others. -/
lemma runOn_copyIn_cons {source target : String} {d : Place} {c : ByteArray} {u : Tree} (fs : List String)
    (hsource : Workspace.resolve w.here a.workspace f = .ok source)
    (htarget : Workspace.resolve w.here dir f = .ok target) (hclear : Path.Clear target) (hname : Path.name target ≠ "")
    (hl : Path.lexical target = d ++ [n]) (hn : isName n = true)
    (hensure : runOn w (ensureDirectories (Path.parent target)) = (.ok (), { w with tree := u }))
    (hd : u.get? d = some .directory) (hfree : u.get? (d ++ [n]) = none) (hread : u.read source = .ok c) :
    runOn w (a.copyIn dir (f :: fs)) = runOn { w with tree := u.put (d ++ [n]) (.file c) } (do
      return (f, Digest.sha256 c) :: (← a.copyIn dir fs)) := by
  have hplace := Tree.place_named hclear hname hl hn hd
  have hcopy := Tree.copy_named (Tree.zero_notMem_named hclear hl hn hd) hplace hd (by simp [hfree])
    (Tree.stat_ne hfree source) hread
  have hput := Tree.get?_put_child (e := .file c) hn hd hfree
  generalize u.put (d ++ [n]) (.file c) = v at hcopy hput
  have hcopied : runOn { w with tree := u } (edit (·.copy source target)) = (.ok (), { w with tree := v }) :=
    runOn_edit_ok hcopy
  have hbytes : runOn { w with tree := v } (readBytes target) = (.ok c, { w with tree := v }) := by
    rw [runOn_readBytes, World.located_absolute hclear.absolute,
      Tree.read_named hclear hname hl (by rw [hput, if_pos rfl])]
  rw [copyIn, runOn_bind, runOn_get]
  dsimp only
  rw [hsource, htarget, runOn_bind, runOn_ofResult]
  dsimp only
  rw [runOn_bind, runOn_ofResult]
  dsimp only
  rw [runOn_bind_ok _ hensure, runOn_bind_ok _ hcopied, runOn_bind_ok _ hbytes]

/-- Files are copied in with what they are, and only their copies are new, by induction on the files. -/
lemma copyIn_granted (hdir : Path.Clear dir) (hne : Path.lexical dir ≠ []) (hws : Path.Clear a.workspace)
    (hW : Path.lexical a.workspace ≠ []) (hfs : fs.Nodup) (h : a.Copyable (Path.lexical dir) fs w.tree) :
    ∃ ds t, runOn w (a.copyIn dir fs) = (.ok ds, { w with tree := t }) ∧
      (∀ p, (∀ f ∈ fs, p ≠ Path.lexical dir ++ [f]) → t.get? p = w.tree.get? p) ∧
      ∀ f ∈ fs, t.get? (Path.lexical dir ++ [f]) = w.tree.get? (Path.lexical a.workspace ++ [f]) := by
  induction fs generalizing w with
  | nil => exact ⟨[], w.tree, rfl, fun _ _ => rfl, fun _ hf => absurd hf List.not_mem_nil⟩
  | cons f fs ih =>
    obtain ⟨hnew, hrest⟩ := List.nodup_cons.1 hfs
    have hname := h.named f List.mem_cons_self
    have hfree := h.free f List.mem_cons_self
    obtain ⟨c, hc⟩ := h.there f List.mem_cons_self
    obtain ⟨source, hsource, hsclear, hsl, hsname⟩ := resolve_child w.here hws hW hname
    obtain ⟨target, htarget, hclear, hl, htname⟩ := resolve_child w.here hdir hne hname
    have hstep := runOn_copyIn_cons fs hsource htarget hclear htname hl hname
      (runOn_ensureDirectories_parent hclear htname hl h.directory) h.directory hfree
      (Tree.read_named hsclear hsname hsl hc)
    have hput := Tree.get?_put_child (e := .file c) hname h.directory hfree
    generalize w.tree.put (Path.lexical dir ++ [f]) (.file c) = u at hstep hput
    obtain ⟨hnext, hkept⟩ := h.next hnew hput
    obtain ⟨ds, t, hr, houtside, hcopied⟩ := ih (w := { w with tree := u }) hrest hnext
    refine ⟨(f, Digest.sha256 c) :: ds, t, ?_, fun p hp => ?_, fun g hg => ?_⟩
    · rw [hstep, runOn_bind_ok _ hr]
      rfl
    · obtain ⟨hpf, hpfs⟩ := List.forall_mem_cons.1 hp
      rw [houtside p hpfs, hput, if_neg hpf]
    · rcases List.mem_cons.1 hg with rfl | hg
      · rw [houtside, hput, if_pos rfl, hc]
        intro g' hg' heq
        obtain rfl : g = g' := by simpa using heq
        exact hnew hg'
      · rw [hcopied g hg]
        exact hkept g hg

/-! ### Putting together -/

/-- Whether the root of an archive is there, and nothing stands where a backup is put together and where it is moved. -/
structure Vacant (a : Archive) (name : String) (t : Tree) : Prop where
  root : t.get? (Path.lexical a.root) = some .directory
  named : isName (stagingMark ++ name) = true
  staging : t.get? (a.stagingPlace name) = none
  place : t.get? (a.placeOf name) = none

/-- Where nothing lies in an archive, nothing is in the way of a backup. -/
lemma Bare.vacant (h : a.Bare t) (hn : isName (stagingMark ++ name) = true) : a.Vacant name t := by
  refine ⟨h.root, hn, ?_, ?_⟩
  · rw [stagingPlace, ← placeOf, ← List.append_nil (a.placeOf _), h.empty]
  · rw [← List.append_nil (a.placeOf _), h.empty]

/-- The tree with a staging directory and, in it, the directory for the copies. -/
def prepared (a : Archive) (name : String) (t : Tree) : Tree :=
  (t.put (a.stagingPlace name) .directory).put (a.stagingPlace name ++ [filesName]) .directory

/-- A staging directory that waits for its manifest: it is there, and nothing outside of it is new. -/
structure Staged (a : Archive) (name : String) (t v : Tree) : Prop where
  outside : ∀ p, ¬ a.stagingPlace name <+: p → v.get? p = t.get? p
  directory : v.get? (a.stagingPlace name) = some .directory
  unwritten : v.get? (a.stagingPlace name ++ [manifestName]) = none

/-- The directory for the copies is all that stands in a new staging directory. -/
lemma Vacant.get?_prepared (h : a.Vacant name t) (p : Place) : (a.prepared name t).get? p =
    if p = a.stagingPlace name ∨ p = a.stagingPlace name ++ [filesName] then some .directory else t.get? p := by
  have hput : ∀ q, (t.put (a.stagingPlace name) .directory).get? q =
      if q = a.stagingPlace name then some .directory else t.get? q := Tree.get?_put_child h.named h.root h.staging
  have hfree : (t.put (a.stagingPlace name) .directory).get? (a.stagingPlace name ++ [filesName]) = none := by
    rw [hput, if_neg (by simp)]
    exact Tree.get?_below_none h.staging (List.prefix_append _ _)
  rw [prepared, Tree.get?_put_child (by decide) ((hput _).trans (if_pos rfl)) hfree, hput]
  by_cases hfiles : p = a.stagingPlace name ++ [filesName]
  · rw [if_pos hfiles, if_pos (.inr hfiles)]
  · simp only [hfiles, or_false, if_false]

lemma Vacant.newDirectories (h : a.Vacant name t) (ha : Path.Clear a.root) :
    t.newDirectories (Path.join (Path.join a.root (stagingMark ++ name)) filesName) = .ok (a.prepared name t) :=
  Tree.newDirectories_below ha h.named (by decide) h.root h.staging

/-- Nothing stands below the two new directories. -/
lemma Vacant.below (h : a.Vacant name t) {r : Place} (hr : r ≠ []) (hr' : r ≠ [filesName]) :
    (a.prepared name t).get? (a.stagingPlace name ++ r) = none := by
  rw [h.get?_prepared, if_neg (by simpa using ⟨hr, hr'⟩)]
  exact Tree.get?_below_none h.staging (List.prefix_append _ _)

lemma Vacant.staged (h : a.Vacant name t) : a.Staged name t (a.prepared name t) := by
  refine ⟨fun p hp => ?_, ?_, h.below (List.cons_ne_nil _ _) (by decide)⟩
  · rw [h.get?_prepared, if_neg]
    rintro (rfl | rfl)
    · exact hp List.prefix_rfl
    · exact hp (List.prefix_append _ _)
  · rw [h.get?_prepared, if_pos (.inl rfl)]

/-- What is copied among the others leaves a staging directory waiting for its manifest. -/
lemma Staged.copied {u : Tree} (h : a.Staged name t v)
    (hu : ∀ p, ¬ a.stagingPlace name ++ [filesName] <+: p → u.get? p = v.get? p) : a.Staged name t u := by
  have hout : ∀ p, ¬ a.stagingPlace name <+: p → ¬ a.stagingPlace name ++ [filesName] <+: p := fun p hp hpre =>
    hp ((List.prefix_append _ _).trans hpre)
  refine ⟨fun p hp => (hu p (hout p hp)).trans (h.outside p hp), ?_, ?_⟩
  · rw [hu _ fun hpre => absurd hpre.length_le (by simp), h.directory]
  · rw [hu, h.unwritten]
    rw [List.prefix_append_right_inj]
    exact fun hpre => absurd (List.cons_prefix_cons.1 hpre).1 (by decide)

/-- The tree after a backup was put together: its manifest is written, and its staging directory moved to its place. -/
def sealed (a : Archive) (b : Backup) (v : Tree) : Tree :=
  (v.put (a.stagingPlace b.name ++ [manifestName]) (.file (Text.encode (Json.write b.manifest)))).move
    (a.stagingPlace b.name) (a.placeOf b.name)

section

variable {now : Instant} {k : Nat}

/-- A manifest is written in a staging directory, and the directory is moved to its place. -/
lemma Staged.steps (ha : Path.Clear a.root) (hname : b.name = nameOf now k) (hvacant : a.Vacant b.name t)
    (h : a.Staged b.name t v) :
    ∃ x, v.write (Path.join (Path.join a.root (stagingMark ++ b.name)) manifestName)
        (Text.encode (Json.write b.manifest)) = .ok x ∧
      x.rename (Path.join a.root (stagingMark ++ b.name)) (Path.join a.root b.name) = .ok (a.sealed b v) := by
  have hsites := hname ▸ sites_nameOf ha now k
  have hbelow : Path.lexical (Path.join a.root (stagingMark ++ b.name)) = a.stagingPlace b.name := hsites.staging.2
  have hdir : v.get? (Path.lexical (Path.join a.root (stagingMark ++ b.name))) = some .directory := by
    rw [hbelow, h.directory]
  have hmanifest : isName manifestName = true := by decide
  have hwrite := Tree.write_named (c := Text.encode (Json.write b.manifest))
    (Tree.zero_notMem_child hsites.staging.1 hmanifest hdir) (Tree.place_below hsites.staging.1 hmanifest hdir) hdir
    (by simp [hbelow, h.unwritten])
  have hput := Tree.get?_put_child (e := .file (Text.encode (Json.write b.manifest))) hmanifest h.directory h.unwritten
  rw [hbelow] at hwrite
  have hapart : ∀ r, a.placeOf b.name ≠ a.stagingPlace b.name ++ r := fun r heq =>
    stagingPlace_apart a b.name r [] (heq.symm.trans (List.append_nil _).symm)
  have hplace : (v.put (a.stagingPlace b.name ++ [manifestName]) (.file (Text.encode (Json.write b.manifest)))).get?
      (a.placeOf b.name) = none := by
    rw [hput, if_neg (hapart _), h.outside _ fun ⟨r, hr⟩ => hapart r hr.symm, hvacant.place]
  have hthere : (v.put (a.stagingPlace b.name ++ [manifestName]) (.file (Text.encode (Json.write b.manifest)))).get?
      (a.stagingPlace b.name) = some .directory := by
    rw [hput, if_neg (by simp), h.directory]
  have hne : stagingMark ++ b.name ≠ b.name := fun heq =>
    hapart [] (by rw [List.append_nil, stagingPlace, placeOf, heq])
  refine ⟨_, hwrite, Tree.rename_child ha hvacant.named ?_ hne hthere hplace⟩
  rw [hname]
  exact isName_nameOf (hname ▸ hvacant.named)

/-- Nothing but the directory of a backup is new when it was put together, and in that stands what was staged. -/
lemma Staged.get?_sealed (ha : Path.Clear a.root) (hname : b.name = nameOf now k) (hvacant : a.Vacant b.name t)
    (h : a.Staged b.name t v) :
    (∀ p, ¬ a.placeOf b.name <+: p → (a.sealed b v).get? p = t.get? p) ∧
      ∀ r, r ≠ [manifestName] → (a.sealed b v).get? (a.placeOf b.name ++ r) = v.get? (a.stagingPlace b.name ++ r) := by
  obtain ⟨x, hwrite, hrename⟩ := h.steps ha hname hvacant
  have hmoved : a.Moved b.name (Text.encode (Json.write b.manifest)) v (a.sealed b v) := by
    rw [hname] at hwrite hrename ⊢
    exact moved ha hwrite hrename
  refine ⟨fun p hp => ?_, hmoved.inside⟩
  by_cases hpre : a.stagingPlace b.name <+: p
  · obtain ⟨r, rfl⟩ := hpre
    rw [hmoved.gone, Tree.get?_below_none hvacant.staging (List.prefix_append _ _)]
  · rw [hmoved.outside p hpre hp, h.outside p hpre]

lemma manifestText_writable (h : Number.isWritable b.sequence = true) : manifestText b = .ok (Json.write b.manifest) := by
  unfold manifestText
  exact if_pos h

/-- A backup is put together where nothing is in its way and its files are copied in. -/
lemma Staged.assemble (ha : Path.Clear a.root) (hheld : a.Holds w bs) (hseq : Number.isWritable (following bs) = true)
    {ds : List (String × String)} {description : String}
    (hb : b = ⟨nameOf now k, now, description, fs, Path.join a.root (nameOf now k), following bs, ds⟩)
    (hvacant : a.Vacant b.name w.tree) (h : a.Staged b.name w.tree v)
    (hcopy : runOn { w with tree := a.prepared b.name w.tree }
      (a.copyIn (Path.join (Path.join a.root (stagingMark ++ b.name)) filesName) fs) = (.ok ds, { w with tree := v })) :
    runOn w (a.assemble now (nameOf now k) description fs) = (.ok b, { w with tree := a.sealed b v }) := by
  have hname : b.name = nameOf now k := by rw [hb]
  have hsequence : b.sequence = following bs := by rw [hb]
  obtain ⟨x, hwrite, hrename⟩ := h.steps ha hname hvacant
  have hnext : a.Holds { w with tree := v } bs := hheld.congr fun m hm =>
    Tree.bytes?_congr (h.outside _ (manifestPlace_apart hm))
  have hmade : runOn w (edit (·.newDirectories (Path.join (Path.join a.root (stagingMark ++ b.name)) filesName))) =
      (.ok (), { w with tree := a.prepared b.name w.tree }) := runOn_edit_ok (hvacant.newDirectories ha)
  have hwritten : runOn { w with tree := v } (writeText (Path.join (Path.join a.root (stagingMark ++ b.name))
      manifestName) (Json.write b.manifest)) = (.ok (), { w with tree := x }) := by
    rw [writeText, runOn_writeBytes, World.located_absolute (hname ▸ sites_nameOf ha now k).manifest.1.absolute]
    exact runOn_edit_ok hwrite
  have hrenamed : runOn { w with tree := x } (edit (·.rename (Path.join a.root (stagingMark ++ b.name))
      (Path.join a.root b.name))) = (.ok (), { w with tree := a.sealed b v }) := runOn_edit_ok hrename
  unfold Archive.assemble
  dsimp only
  rw [← hname, runOn_bind_ok _ hmade, runOn_bind_ok _ hcopy, runOn_bind_ok _ (hnext.next ha)]
  rw [← hname] at hb
  rw [← hb, manifestText_writable (hsequence ▸ hseq), runOn_bind, runOn_ofResult]
  dsimp only
  rw [runOn_bind_ok _ hwritten, runOn_bind_ok _ hrenamed]
  rfl

end

/-- A backup is made where nothing is in its way and its files are copied in. -/
lemma Staged.create (ha : Path.Clear a.root) (hheld : a.Holds w bs) (hseq : Number.isWritable (following bs) = true)
    (hensure : runOn w a.ensure = (.ok (), { w with tree := t })) {ds : List (String × String)} {description : String}
    (hb : b = ⟨nameOf w.now (w.draws + 1), w.now, description, a.wanted w.here files,
      Path.join a.root (nameOf w.now (w.draws + 1)), following bs, ds⟩)
    (hvacant : a.Vacant b.name t) (h : a.Staged b.name t v)
    (hcopy : runOn { w with tree := a.prepared b.name t, draws := w.draws + 1 }
      (a.copyIn (Path.join (Path.join a.root (stagingMark ++ b.name)) filesName) (a.wanted w.here files)) =
        (.ok ds, { w with tree := v, draws := w.draws + 1 })) :
    runOn w (a.create files description) = (.ok b, { w with tree := a.sealed b v, draws := w.draws + 1 }) := by
  obtain ⟨t', hgrown, ht'⟩ := ensure_ok hensure
  obtain rfl : t = t' := congrArg World.tree ht'
  have hkept : a.Holds { w with tree := t, draws := w.draws + 1 } bs := hheld.congr fun m _ => hgrown.bytes? _
  exact create_of_assemble hensure (h.assemble ha hkept hseq hb hvacant hcopy)

/-! ### One file -/

/-- Where one file of a workspace lies, and where its copy goes: from the workspace and from the directory for the
copies, what lists the file leads into them. -/
structure Routed (a : Archive) (name f : String) (p d : Place) (n : String) : Prop where
  relative : Path.isAbsolute f = false
  source : Path.follow (Path.lexical a.workspace) (Path.components f) = p
  inside : Path.lexical a.workspace <+: p
  target : Path.follow (a.stagingPlace name ++ [filesName]) (Path.components f) = d ++ [n]
  below : a.stagingPlace name ++ [filesName] <+: d

lemma Routed.targetOf_eq {p d : Place} (h : a.Routed name f p d n) (hws : Path.Clear a.workspace) : a.targetOf f = p := by
  rw [targetOf, Path.lexical_join hws.ne_empty h.relative, ← Path.follow_eq fun m hm => (Path.mem_lexical hm).1, h.source]

/-- The tree in which a file can be copied to a name in a directory, after the directories were made that lead to it. -/
structure Lodged (a : Archive) (name : String) (d : Place) (n : String) (t u : Tree) : Prop where
  made : ∀ path, Path.Clear path → Path.name path ≠ "" → Path.lexical path = d →
    (a.prepared name t).ensureDirectories path = .ok u
  kept : ∀ p, ¬ a.stagingPlace name ++ [filesName] <+: p → u.get? p = (a.prepared name t).get? p
  directory : u.get? d = some .directory
  free : u.get? (d ++ [n]) = none

/-- Nothing is made for a file that goes directly among the copies. -/
lemma Vacant.lodged (h : a.Vacant name t) :
    a.Lodged name (a.stagingPlace name ++ [filesName]) n t (a.prepared name t) := by
  have hd : (a.prepared name t).get? (a.stagingPlace name ++ [filesName]) = some .directory := by
    rw [h.get?_prepared, if_pos (.inr rfl)]
  refine ⟨fun path hc _ hl => Tree.ensureDirectories_there hc (hl ▸ hd), fun _ _ => rfl, hd, ?_⟩
  rw [List.append_assoc]
  exact h.below (by simp) (by simp)

/-- One directory is made for a file that goes into it. -/
lemma Vacant.lodged_below (h : a.Vacant name t) {m : String} (hm : isName m = true) :
    a.Lodged name (a.stagingPlace name ++ [filesName] ++ [m]) n t
      ((a.prepared name t).put (a.stagingPlace name ++ [filesName] ++ [m]) .directory) := by
  have hd : (a.prepared name t).get? (a.stagingPlace name ++ [filesName]) = some .directory := by
    rw [h.get?_prepared, if_pos (.inr rfl)]
  have hfree : (a.prepared name t).get? (a.stagingPlace name ++ [filesName] ++ [m]) = none := by
    rw [List.append_assoc]
    exact h.below (by simp) (by simp)
  have hput := Tree.get?_put_child (e := .directory) hm hd hfree
  refine ⟨fun path hc hname hl => Tree.ensureDirectories_named hc hname hl hm hd hfree, fun p hp => ?_, ?_, ?_⟩
  · rw [hput, if_neg]
    rintro rfl
    exact hp (List.prefix_append _ _)
  · rw [hput, if_pos rfl]
  · rw [hput, if_neg (by simp)]
    exact Tree.get?_below_none hfree (List.prefix_append _ _)

/-- The backup of one file that a world makes next. -/
def sole (a : Archive) (w : World) (bs : List Backup) (description f : String) (c : ByteArray) : Backup :=
  ⟨nameOf w.now (w.draws + 1), w.now, description, [f], Path.join a.root (nameOf w.now (w.draws + 1)), following bs,
    [(f, Digest.sha256 c)]⟩

section

variable {p d : Place} {c : ByteArray} {u : Tree}

/-- The copy of a file is all that is new where it goes. -/
lemma Lodged.get?_put (h : a.Lodged name d n t u) (hn : isName n = true) (q : Place) :
    (u.put (d ++ [n]) (.file c)).get? q = if q = d ++ [n] then some (.file c) else u.get? q :=
  Tree.get?_put_child hn h.directory h.free q

lemma Lodged.staged (h : a.Lodged name d n t u) (hn : isName n = true) (hvacant : a.Vacant name t)
    (hbelow : a.stagingPlace name ++ [filesName] <+: d) : a.Staged name t (u.put (d ++ [n]) (.file c)) := by
  refine hvacant.staged.copied fun q hq => ?_
  rw [h.get?_put hn, if_neg, h.kept q hq]
  rintro rfl
  exact hq (hbelow.trans (List.prefix_append _ _))

/-- One file is copied in. -/
lemma Routed.copyIn (h : a.Routed name f p d n) (hn : isName n = true) (hws : Path.Clear a.workspace)
    (hW : Path.lexical a.workspace ≠ []) (hdir : Path.Clear dir)
    (hplace : Path.lexical dir = a.stagingPlace name ++ [filesName]) (hvacant : a.Vacant name t)
    (hlodged : a.Lodged name d n t u) (hc : t.get? p = some (.file c)) (htree : w.tree = a.prepared name t) :
    runOn w (a.copyIn dir [f]) = (.ok [(f, Digest.sha256 c)], { w with tree := u.put (d ++ [n]) (.file c) }) := by
  obtain ⟨s, hs, hsabs, hsl⟩ := resolve_below w.here hws hW h.relative h.source h.inside
  obtain ⟨s', hs', hsabs', hsl'⟩ := resolve_below w.here hdir (by simp [hplace]) h.relative (hplace ▸ h.target)
    (hplace ▸ h.below.trans (List.prefix_append _ _))
  have hd : d ≠ [] := fun h0 => by
    rw [h0] at h
    exact absurd h.below.length_le (by simp)
  obtain ⟨x, hx, hxabs, hxl⟩ := Path.parent_normal hsabs' hd hsl'
  have hp : ¬ a.stagingPlace name <+: p := fun hpre =>
    absurd ((Tree.get?_below_none hvacant.staging hpre).symm.trans hc) nofun
  have hthere : u.get? p = some (.file c) := by
    rw [hlodged.kept _ fun hpre => hp ((List.prefix_append _ _).trans hpre), hvacant.staged.outside _ hp, hc]
  obtain ⟨q, m, rfl⟩ := (List.eq_nil_or_concat' p).resolve_left fun h0 => by
    rw [h0, Tree.get?_nil] at hc
    cases hc
  have hread := Tree.read_named (Path.clear_normal hsabs) (Path.name_normal hsabs (by simp [hsl]))
    ((Path.lexical_normal hsabs).trans hsl) hthere
  have hensure : runOn w (ensureDirectories (Path.parent (Path.normal s'))) = (.ok (), { w with tree := u }) := by
    rw [runOn_ensureDirectories, hx, World.located_absolute (Path.isAbsolute_normal hxabs)]
    refine runOn_edit_ok (htree ▸ hlodged.made _ (Path.clear_normal hxabs) (Path.name_normal hxabs (hxl ▸ hd)) ?_)
    rw [Path.lexical_normal hxabs, hxl]
  rw [runOn_copyIn_cons [] hs hs' (Path.clear_normal hsabs') (Path.name_normal hsabs' (by simp [hsl']))
    ((Path.lexical_normal hsabs').trans hsl') hn hensure hlodged.directory hlodged.free hread]
  rfl

/-- **A backup of one file is made where nothing is in its way**, wherever its copy goes. -/
lemma Routed.create (h : a.Routed (nameOf w.now (w.draws + 1)) f p d n) (hn : isName n = true) (ha : Path.Clear a.root)
    (hws : Path.Clear a.workspace) (hW : Path.lexical a.workspace ≠ []) (hheld : a.Holds w bs)
    (hseq : Number.isWritable (following bs) = true) (hwanted : a.wanted w.here files = [f])
    (hensure : runOn w a.ensure = (.ok (), { w with tree := t })) (hvacant : a.Vacant (nameOf w.now (w.draws + 1)) t)
    (hlodged : a.Lodged (nameOf w.now (w.draws + 1)) d n t u) (hc : t.get? p = some (.file c)) (description : String) :
    runOn w (a.create files description) = (.ok (a.sole w bs description f c),
      { w with tree := a.sealed (a.sole w bs description f c) (u.put (d ++ [n]) (.file c)), draws := w.draws + 1 }) := by
  obtain ⟨hdir, hplace⟩ := (sites_nameOf ha w.now (w.draws + 1)).files
  have hcopy := h.copyIn (w := { w with tree := a.prepared (nameOf w.now (w.draws + 1)) t, draws := w.draws + 1 })
    hn hws hW hdir hplace hvacant hlodged hc rfl
  have hsole : a.sole w bs description f c = ⟨nameOf w.now (w.draws + 1), w.now, description, a.wanted w.here files,
      Path.join a.root (nameOf w.now (w.draws + 1)), following bs, [(f, Digest.sha256 c)]⟩ := by
    rw [hwanted]
    rfl
  exact (hlodged.staged hn hvacant h.below).create ha hheld hseq hensure hsole hvacant (by rw [hwanted]; exact hcopy)

/-- When its copy goes directly among the copies, it stands there alone. -/
lemma Routed.create_alone (h : a.Routed (nameOf w.now (w.draws + 1)) f p
      (a.stagingPlace (nameOf w.now (w.draws + 1)) ++ [filesName]) n) (hn : isName n = true) (ha : Path.Clear a.root)
    (hws : Path.Clear a.workspace) (hW : Path.lexical a.workspace ≠ []) (hheld : a.Holds w bs)
    (hseq : Number.isWritable (following bs) = true) (files : List String) (hwanted : a.wanted w.here files = [f])
    (hensure : runOn w a.ensure = (.ok (), { w with tree := t })) (hvacant : a.Vacant (nameOf w.now (w.draws + 1)) t)
    (hc : t.get? p = some (.file c)) (description : String) :
    ∃ b v, runOn w (a.create files description) = (.ok b, { w with tree := v, draws := w.draws + 1 }) ∧
      b.name = nameOf w.now (w.draws + 1) ∧ b.files = [f] ∧ ∀ r, v.get? (a.placeOf b.name ++ filesName :: r) =
        if r = [] then some .directory else if r = [n] then some (.file c) else none := by
  have hlodged := hvacant.lodged (n := n)
  have hstaged := hlodged.staged (c := c) hn hvacant List.prefix_rfl
  refine ⟨a.sole w bs description f c, _, h.create hn ha hws hW hheld hseq hwanted hensure hvacant hlodged hc description,
    rfl, rfl, fun r => ?_⟩
  have hname : (a.sole w bs description f c).name = nameOf w.now (w.draws + 1) := rfl
  rw [(hstaged.get?_sealed ha hname hvacant).2 _ fun heq => absurd (List.cons.inj heq).1 (by decide), hlodged.get?_put hn,
    hname]
  by_cases hr : r = []
  · rw [if_neg (by simp [hr]), if_pos hr, hr, hlodged.directory]
  by_cases hone : r = [n]
  · rw [if_pos (by simp [hone]), if_neg hr, if_pos hone]
  · rw [if_neg (by simpa using hone), if_neg hr, if_neg hone, hvacant.below (List.cons_ne_nil _ _) (by simpa using hr)]

end

/-! ### Files of the workspace itself -/

/-- Whether nothing is in the way of a backup of files that stand directly in the workspace. -/
structure Ready (a : Archive) (name : String) (files : List String) (t : Tree) : Prop extends a.Vacant name t where
  names : ∀ f ∈ files, isName f = true
  there : ∀ f ∈ files, ∃ c, t.get? (Path.lexical a.workspace ++ [f]) = some (.file c)

/-- Such files can be copied into a new staging directory. -/
lemma Ready.copyable (h : a.Ready name fs t) :
    a.Copyable (a.stagingPlace name ++ [filesName]) fs (a.prepared name t) := by
  refine ⟨?_, h.names, fun f hf => ?_, fun f hf => ?_⟩
  · rw [h.get?_prepared, if_pos (.inr rfl)]
  · rw [List.append_assoc, h.below (by simp) (by simp)]
  · obtain ⟨c, hc⟩ := h.there f hf
    refine ⟨c, ?_⟩
    rw [h.staged.outside, hc]
    exact fun hpre => absurd ((Tree.get?_below_none h.staging hpre).symm.trans hc) nofun

/-- **A backup is made where nothing is in its way.** Nothing but its directory and what leads to it is new, and it has a
copy of every file. -/
lemma Holds.create_granted (ha : Path.Clear a.root) (hws : Path.Clear a.workspace) (hW : Path.lexical a.workspace ≠ [])
    (h : a.Holds w bs) (hseq : Number.isWritable (following bs) = true) (files : List String) (description : String)
    (hensure : runOn w a.ensure = (.ok (), { w with tree := t }))
    (hready : a.Ready (nameOf w.now (w.draws + 1)) (a.wanted w.here files) t) :
    ∃ b u, runOn w (a.create files description) = (.ok b, { w with tree := u, draws := w.draws + 1 }) ∧
      b.name = nameOf w.now (w.draws + 1) ∧
      (∀ p, ¬ a.placeOf (nameOf w.now (w.draws + 1)) <+: p → u.get? p = t.get? p) ∧
      ∀ f ∈ a.wanted w.here files, u.get? (a.placeOf (nameOf w.now (w.draws + 1)) ++ [filesName, f]) =
        t.get? (Path.lexical a.workspace ++ [f]) := by
  generalize hname : nameOf w.now (w.draws + 1) = name at hready
  obtain ⟨hdir, hplace⟩ := (sites_nameOf ha w.now (w.draws + 1)).files
  rw [hname] at hdir hplace
  have hcopyable := hready.copyable
  rw [← hplace] at hcopyable
  obtain ⟨ds, v, hcopy, hkept, hcopied⟩ := copyIn_granted
    (w := { w with tree := a.prepared name t, draws := w.draws + 1 }) hdir (by simp [hplace]) hws hW
    (nodup_wanted a w.here files) hcopyable
  rw [hplace] at hkept hcopied
  have hstaged : a.Staged name t v := hready.staged.copied fun p hp => hkept p fun f _ heq => hp ⟨[f], heq.symm⟩
  generalize hb : (⟨name, w.now, description, a.wanted w.here files, Path.join a.root name, following bs, ds⟩ : Backup) = b
  obtain rfl : b.name = name := by rw [← hb]
  have hcreate := hstaged.create ha h hseq hensure (by rw [hname, hb]) hready.toVacant hcopy
  obtain ⟨hout, hin⟩ := hstaged.get?_sealed ha hname.symm hready.toVacant
  refine ⟨b, _, hcreate, rfl, hout, fun f hf => ?_⟩
  obtain ⟨c, hc⟩ := hready.there f hf
  rw [hin _ (by simp [filesName]), List.append_cons, hcopied f hf]
  exact hready.staged.outside _ fun hpre => by simp [Tree.get?_below_none hready.staging hpre] at hc

/-! ### Restoring -/

/-- Nothing is wrong with copies that have the digests that are recorded. -/
lemma problems_granted {b : Backup} (hdir : Path.Clear dir) (hn : ∀ f ∈ fs, isName f = true)
    (h : ∀ f ∈ fs, ∃ c, w.tree.get? (Path.lexical dir ++ [f]) = some (.file c) ∧
      b.digests.lookup f = some (Digest.sha256 c)) : runOn w (problems b dir fs) = (.ok [], w) := by
  induction fs with
  | nil => rfl
  | cons f fs ih =>
    obtain ⟨hname, hnames⟩ := List.forall_mem_cons.1 hn
    obtain ⟨⟨c, hc, hdigest⟩, hrest⟩ := List.forall_mem_cons.1 h
    obtain ⟨hproper, hslash, -⟩ := Tree.proper_of_isName hname
    have hpath := (hdir.child hproper hslash).1.absolute
    have hfile : runOn w (Act.isFile (Path.join dir f)) = (.ok true, w) := by
      rw [runOn_isFile, World.located_absolute hpath, Tree.isFile_iff.2 ⟨_, c, Tree.stat_child hdir hproper hslash hc⟩]
    have hbytes : runOn w (readBytes (Path.join dir f)) = (.ok c, w) := by
      rw [runOn_readBytes, World.located_absolute hpath, Tree.read_child hdir hproper hslash (Tree.bytes?_eq_some.2 hc)]
    rw [problems, runOn_bind_ok _ hfile, runOn_ite, if_pos rfl, runOn_bind_ok _ hbytes, hdigest, runOn_ite, if_neg (by simp),
      runOn_bind, runOn_pure]
    dsimp only
    rw [runOn_bind_ok _ (ih hnames hrest)]
    rfl

/-- One copy is written back, and then the others. -/
lemma runOn_copyOut_cons {target : String} {u v : Tree} (fs : List String)
    (htarget : Workspace.resolve w.here a.workspace f = .ok target)
    (hensure : runOn w (ensureDirectories (Path.parent target)) = (.ok (), { w with tree := u }))
    (hcopy : u.copy (Path.join dir f) target = .ok v) :
    runOn w (a.copyOut dir (f :: fs)) = runOn { w with tree := v } (a.copyOut dir fs) := by
  have hcopied : runOn { w with tree := u } (edit (·.copy (Path.join dir f) target)) =
      (.ok (), { w with tree := v }) := runOn_edit_ok hcopy
  rw [copyOut, runOn_bind, runOn_get]
  dsimp only
  rw [htarget, runOn_bind, runOn_ofResult]
  dsimp only
  rw [runOn_bind_ok _ hensure, runOn_bind_ok _ hcopied]

/-- Copies are written back to where their files came from, unless a directory stands there, by induction on the files. -/
lemma copyOut_granted (hdir : Path.Clear dir) (hws : Path.Clear a.workspace) (hW : Path.lexical a.workspace ≠ [])
    (hne : Path.lexical dir ≠ Path.lexical a.workspace) (hroot : w.tree.get? (Path.lexical a.workspace) = some .directory)
    (hn : ∀ f ∈ fs, isName f = true) (hfree : ∀ f ∈ fs, w.tree.get? (Path.lexical a.workspace ++ [f]) ≠ some .directory)
    (hthere : ∀ f ∈ fs, ∃ c, w.tree.get? (Path.lexical dir ++ [f]) = some (.file c)) :
    ∃ t, runOn w (a.copyOut dir fs) = (.ok (), { w with tree := t }) := by
  induction fs generalizing w with
  | nil => exact ⟨w.tree, rfl⟩
  | cons f fs ih =>
    obtain ⟨hname, hnames⟩ := List.forall_mem_cons.1 hn
    obtain ⟨hf, hfs⟩ := List.forall_mem_cons.1 hfree
    obtain ⟨⟨c, hc⟩, hthere⟩ := List.forall_mem_cons.1 hthere
    obtain ⟨hproper, hslash, -⟩ := Tree.proper_of_isName hname
    obtain ⟨target, htarget, hclear, hl, htname⟩ := resolve_child w.here hws hW hname
    have hensure := runOn_ensureDirectories_parent hclear htname hl hroot
    have hread := Tree.read_child hdir hproper hslash (Tree.bytes?_eq_some.2 hc)
    have hapart : ∀ e, w.tree.stat (Path.join dir f) ≠ .ok (Path.lexical a.workspace ++ [f], e) := fun e hs => by
      rw [Tree.stat_child hdir hproper hslash hc] at hs
      exact hne (List.append_singleton_inj.1 (Prod.mk.inj (Except.ok.inj hs)).1).1
    have hcopy := Tree.copy_named (Tree.zero_notMem_named hclear hl hname hroot)
      (Tree.place_named hclear htname hl hname hroot) hroot hf hapart hread
    have hput := Tree.get?_put_file (c := c) hname hroot hf
    generalize w.tree.put (Path.lexical a.workspace ++ [f]) (.file c) = u at hcopy hput
    have hnone : ∀ g ∈ fs, u.get? (Path.lexical a.workspace ++ [g]) ≠ some .directory := by
      intro g hg
      rw [hput]
      split
      · simp
      · exact hfs g hg
    have hcopies : ∀ g ∈ fs, ∃ c, u.get? (Path.lexical dir ++ [g]) = some (.file c) := by
      intro g hg
      rw [hput]
      split
      · exact ⟨c, rfl⟩
      · exact hthere g hg
    obtain ⟨t, ht⟩ := ih (w := { w with tree := u }) (by rw [hput, if_neg (by simp), hroot]) hnames hnone hcopies
    refine ⟨t, ?_⟩
    rw [runOn_copyOut_cons fs htarget hensure hcopy, ht]

/-- Where nothing lies in an archive, a backup of no file can be made, and when it is pruned nothing lies in it again. -/
lemma Holds.create_prune (ha : Path.Clear a.root) (hws : Path.Clear a.workspace) (hW : Path.lexical a.workspace ≠ [])
    (h : a.Holds w []) (hw : Timely w) (hn : isName (stagingMark ++ nameOf w.now (w.draws + 1)) = true)
    (hensure : runOn w a.ensure = (.ok (), { w with tree := t })) (hbare : a.Bare t) :
    ∃ b w₁ u, runOn w (a.create [] "") = (.ok b, w₁) ∧ b.sequence = 1 ∧
      runOn w₁ (a.pruneKeep 0) = (.ok 1, { w with tree := u, draws := w.draws + 1 }) ∧
      a.Holds { w with tree := u, draws := w.draws + 1 } [] ∧ a.Bare u := by
  obtain ⟨b, v, hb, hname, hout, -⟩ := h.create_granted ha hws hW (by decide) [] "" hensure
    ⟨hbare.vacant hn, fun _ hf => absurd hf List.not_mem_nil, fun _ hf => absurd hf List.not_mem_nil⟩
  obtain ⟨hmade, hseq⟩ := h.create ha hws hw hb
  have hfront : a.Holds _ ([] ++ b :: []) := hmade
  obtain ⟨u, hu, hleft⟩ := hfront.remove ha
  have hpath := (hmade.keeps b (List.mem_append_right _ (List.mem_singleton.2 rfl))).place ha
  have hdelete : runOn { w with tree := v, draws := w.draws + 1 } (Archive.deleteAll [b]) =
      (.ok 1, { w with tree := u, draws := w.draws + 1 }) := by
    rw [Archive.deleteAll, runOn_bind_ok _ (runOn_edit_ok hu)]
    rfl
  have hback : ∀ p, u.get? p = t.get? p := fun p => by
    rw [(Tree.removeAll_ok hu).2, Tree.get?_erase, hpath, hname]
    split
    · rename_i hp
      obtain ⟨r, rfl⟩ := hp.1
      exact (hbare.empty _ r).symm
    · rename_i hp
      refine hout p fun hpre => hp ⟨hpre, ?_⟩
      rintro rfl
      exact absurd hpre (by simp [placeOf])
  exact ⟨b, _, u, hb, hseq, (hmade.runOn_pruneKeep ha (le_refl 0)).trans hdelete, hleft, by rw [hback, hbare.root],
    fun n r => by rw [hback, hbare.empty]⟩

end Ratchet.Archive
