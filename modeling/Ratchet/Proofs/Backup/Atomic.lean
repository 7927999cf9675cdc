import Ratchet.Proofs.Backup.History
import Ratchet.Proofs.Backup.Outcome

/-!
Making a backup is all or nothing.

A file comes into an archive as an archived copy, as a manifest, or because a backup is restored whose files lie in the
archive themselves. Bytes are foreign at a place where none of this can have put them. No operation of the archive puts
foreign bytes into it, so every manifest in it can be read, and no staging directory stands there. In such an archive a
backup is made, and then its directory is the only thing that is new, or everything is as it was.
-/

namespace Ratchet.Archive

open Act

variable {a : Archive} {w w' : World} {b : Backup} {t t' : Tree} {c : ByteArray} {m m' : String} {p r r' : Place}
  {files : List String}

/-! ### Names and places -/

/-- Whether a name is one that a backup can be given. -/
def Given (m : String) : Prop := ∃ now n, m = nameOf now n

lemma Given.head (h : Given m) : m.toList.head? = some 'b' := by
  obtain ⟨now, n, rfl⟩ := h
  simp [nameOf, String.toList_append]

lemma not_given_files : ¬ Given filesName := fun h => absurd h.head (by decide)

lemma not_given_manifest : ¬ Given manifestName := fun h => absurd h.head (by decide)

lemma not_given_staging : ¬ Given (stagingMark ++ m) := fun h => absurd h.head (by
  simp [stagingMark, String.toList_append])

lemma placeOf_append_inj : a.placeOf m ++ r = a.placeOf m' ++ r' ↔ m = m' ∧ r = r' := by
  rw [placeOf, placeOf, List.append_assoc, List.append_assoc, List.append_right_inj]
  exact List.cons_eq_cons

lemma placeOf_not_above : ¬ a.placeOf m ++ r <+: Path.lexical a.root := by
  intro h
  have hlen := h.length_le
  rw [placeOf, List.length_append, List.length_append, List.length_singleton] at hlen
  omega

/-! ### Foreign bytes -/

/-- What a manifest under a name says when it was written there: it is that of a backup which is read back, whose files
lie in the workspace as their copies lie among the archived files, and not in a staging directory. -/
structure Records (a : Archive) (name : String) (b : Backup) : Prop where
  sound : b.Sound
  path : b.path = Path.join a.root name
  placed : ∀ f ∈ b.files, ∃ r, a.targetOf f = Path.lexical a.workspace ++ r ∧
    a.copyOf name f = a.placeOf name ++ filesName :: r
  settled : ∀ f ∈ b.files, ∀ now n, ¬ a.stagingPlace (nameOf now n) <+: a.targetOf f

/-- Whether no operation of an archive puts a file with some bytes at a place: the archive's root or a directory that
leads to it, a name in the archive that no backup is given, the directory of archived files, a manifest that records
nothing; and the place of a copy, if the file would be foreign where it is copied from. -/
@[mk_iff]
inductive Foreign (a : Archive) (c : ByteArray) : Place → Prop
  | above {p : Place} (h : p <+: Path.lexical a.root) : Foreign a c p
  | astray {m : String} {r : Place} (h : ¬ Given m) : Foreign a c (a.placeOf m ++ r)
  | files {m : String} : Foreign a c (a.placeOf m ++ [filesName])
  | manifest {m : String} (h : ¬ ∃ b, a.Records m b ∧ c = Text.encode (Json.write b.manifest)) :
      Foreign a c (a.placeOf m ++ [manifestName])
  | copy {m : String} {r : Place} (h : Foreign a c (Path.lexical a.workspace ++ r)) :
      Foreign a c (a.placeOf m ++ filesName :: r)

/-- In the directory of a backup, what is foreign is a file in the place of the archived files, a manifest that records
nothing, or a copy of what is foreign in the workspace. -/
lemma foreign_given (hm : Given m) : a.Foreign c (a.placeOf m ++ r) ↔
    r = [filesName] ∨ (r = [manifestName] ∧ ¬ ∃ b, a.Records m b ∧ c = Text.encode (Json.write b.manifest)) ∨
      ∃ s, r = filesName :: s ∧ a.Foreign c (Path.lexical a.workspace ++ s) := by
  constructor
  · intro h
    rw [foreign_iff] at h
    rcases h with h | ⟨m', s, hm', heq⟩ | ⟨m', heq⟩ | ⟨m', hno, heq⟩ | ⟨m', s, hs, heq⟩
    · exact absurd h placeOf_not_above
    · exact absurd ((placeOf_append_inj.1 heq).1 ▸ hm) hm'
    · exact .inl (placeOf_append_inj.1 heq).2
    · obtain ⟨rfl, hr⟩ := placeOf_append_inj.1 heq
      exact .inr (.inl ⟨hr, hno⟩)
    · exact .inr (.inr ⟨s, (placeOf_append_inj.1 heq).2, hs⟩)
  · rintro (rfl | ⟨rfl, hno⟩ | ⟨s, rfl, hs⟩)
    · exact .files
    · exact .manifest hno
    · exact .copy hs

/-- Where neither the archive nor what leads to it is, nothing is foreign. -/
lemma not_foreign_outside (hp : ¬ p <+: Path.lexical a.root) (hout : ∀ m r, p ≠ a.placeOf m ++ r) : ¬ a.Foreign c p := by
  intro h
  cases h with
  | above h => exact hp h
  | astray h => exact hout _ _ rfl
  | files => exact hout _ _ rfl
  | manifest h => exact hout _ _ rfl
  | copy h => exact hout _ _ rfl

/-- No name is that of a backup and the last one in a place below it at once, unless it is one that backups are given. -/
lemma Foreign.of_last {x : String} (hx : ¬ Given x) (hlast : (a.placeOf m).getLast? = some x) : a.Foreign c (a.placeOf m) := by
  rw [placeOf, List.getLast?_concat] at hlast
  obtain rfl := Option.some.inj hlast
  rw [← List.append_nil (a.placeOf m)]
  exact .astray hx

/-- A directory takes in a file whose place has the same last name; what would be foreign there would be foreign in the
place of the directory, by induction on what makes it so. -/
lemma Foreign.landed {x : String} (h : a.Foreign c (p ++ [x])) (hx : p.getLast? = some x) : a.Foreign c p := by
  generalize hq : p ++ [x] = q at h
  induction h generalizing p with
  | above h =>
    subst hq
    exact .above ((List.prefix_append p [x]).trans h)
  | @astray m r h =>
    rcases List.eq_nil_or_concat' r with rfl | ⟨r, y, rfl⟩
    · rw [List.append_nil, placeOf] at hq
      obtain ⟨rfl, -⟩ := List.append_singleton_inj.1 hq
      exact .above List.prefix_rfl
    · rw [← List.append_assoc] at hq
      obtain ⟨rfl, -⟩ := List.append_singleton_inj.1 hq
      exact .astray h
  | files =>
    obtain ⟨rfl, rfl⟩ := List.append_singleton_inj.1 hq
    exact .of_last not_given_files hx
  | manifest h =>
    obtain ⟨rfl, rfl⟩ := List.append_singleton_inj.1 hq
    exact .of_last not_given_manifest hx
  | @copy m r h ih =>
    rcases List.eq_nil_or_concat' r with rfl | ⟨r, y, rfl⟩
    · obtain ⟨rfl, rfl⟩ := List.append_singleton_inj.1 hq
      exact .of_last not_given_files hx
    · rw [← List.cons_append, ← List.append_assoc] at hq
      obtain ⟨rfl, rfl⟩ := List.append_singleton_inj.1 hq
      rcases List.eq_nil_or_concat' r with rfl | ⟨s, z, rfl⟩
      · exact .files
      · refine .copy (ih ?_ (List.append_assoc _ _ _))
        rw [← List.cons_append, ← List.append_assoc, List.getLast?_concat] at hx
        rw [← List.append_assoc, List.getLast?_concat, hx]

/-! ### An archive's own files -/

/-- Whether an archive holds nothing but what its operations put there: no foreign bytes and no staging directory. -/
structure Own (a : Archive) (t : Tree) : Prop where
  files : ∀ n r c, t.bytes? (a.placeOf n ++ r) = some c → ¬ a.Foreign c (a.placeOf n ++ r)
  staging : ∀ now n, t.get? (a.stagingPlace (nameOf now n)) = none

/-- An archive in which nothing is new holds nothing else. -/
lemma Own.mono (h : a.Own t) (ht : ∀ n r e, t'.get? (a.placeOf n ++ r) = some e → t.get? (a.placeOf n ++ r) = some e) :
    a.Own t' := by
  refine ⟨fun n r c hc => h.files n r c ?_, fun now n => ?_⟩
  · exact Tree.bytes?_eq_some.2 (ht n r _ (Tree.bytes?_eq_some.1 hc))
  · rw [Option.eq_none_iff_forall_ne_some]
    intro e he
    have hthere := ht (stagingMark ++ nameOf now n) [] e (by rwa [List.append_nil])
    rw [List.append_nil] at hthere
    cases (h.staging now n).symm.trans hthere

/-- What a file has is not foreign where it is, in the archive or elsewhere. -/
lemma Own.native (h : a.Own t) (hp : ¬ p <+: Path.lexical a.root) (hc : t.bytes? p = some c) : ¬ a.Foreign c p := by
  by_cases hin : ∃ m r, p = a.placeOf m ++ r
  · obtain ⟨m, r, rfl⟩ := hin
    exact h.files m r c hc
  · exact not_foreign_outside hp fun m r heq => hin ⟨m, r, heq⟩

/-- Every manifest in an archive that holds nothing else records something. -/
lemma Own.records (h : a.Own t) (hc : t.bytes? (a.manifestPlace m) = some c) :
    ∃ b, a.Records m b ∧ c = Text.encode (Json.write b.manifest) := by
  by_contra hno
  exact h.files m [manifestName] c hc (.manifest hno)

lemma Own.readable (h : a.Own t) : a.Readable t := fun _ _ _ hc =>
  (h.records hc).imp fun _ ⟨hb, heq⟩ => ⟨hb.sound, heq⟩

/-- What is found in such an archive is what was recorded. -/
lemma Own.find (ha : Path.Clear a.root) (h : a.Own w.tree) (hr : runOn w (a.find m) = (.ok b, w')) : a.Records m b := by
  obtain ⟨hthere, -, hproper, hslash, u, hread⟩ := find_ok ha hr
  obtain ⟨c, hc⟩ := Option.isSome_iff_exists.1 hthere
  obtain ⟨b', hb', rfl⟩ := h.records hc
  rw [runOn_readManifest ha hproper hslash hb'.sound.toWritable hc, ofManifest_write hb'.sound, ← hb'.path] at hread
  rwa [← Except.ok.inj (Prod.mk.inj hread).1]

/-! ### Restoring -/

/-- Whether an archive that holds nothing else in one world does so in the other. -/
def Owns (a : Archive) (w w' : World) : Prop := a.Own w.tree → a.Own w'.tree

instance (a : Archive) : IsPreorder World a.Owns where
  refl _ := id
  trans _ _ _ h h' := h' ∘ h

/-- Directories are made that lead to no staging directory. -/
lemma Own.grown (h : a.Own t) (hg : Tree.Grown t t')
    (hs : ∀ now n, t'.get? (a.stagingPlace (nameOf now n)) = t.get? (a.stagingPlace (nameOf now n))) : a.Own t' :=
  ⟨fun n r c hc => h.files n r c (by rwa [← hg.bytes?]), fun now n => by rw [hs, h.staging]⟩

/-- An archived copy is copied to where its file lies in the workspace, or into a directory there. -/
lemma Own.copy {source target : String} (h : a.Own t) (hclear : Path.Clear target) (hc : t.copy source target = .ok t')
    (hsource : Path.lexical source = a.placeOf m ++ filesName :: r)
    (htarget : Path.lexical target = Path.lexical a.workspace ++ r) : a.Own t' := by
  obtain ⟨c, hplace, hthere, -, -, hw⟩ := Tree.copy_ok hc
  have hnot : ¬ a.Foreign c (a.placeOf m ++ filesName :: r) :=
    h.files m _ c (Tree.bytes?_eq_some.2 (hsource ▸ hthere))
  have hr : r ≠ [] := by
    rintro rfl
    exact hnot .files
  have hland : ¬ a.Foreign c (Path.lexical (t.landing source target)) := by
    intro hf
    refine hnot (.copy ?_)
    rw [Tree.landing] at hf
    split at hf
    · have hproper := Tree.proper_name hplace hthere
      rw [Path.lexical_join_name hclear hproper, htarget] at hf
      refine hf.landed ?_
      -- The place of the copy and that of the file end with the same name.
      obtain ⟨ds, hds⟩ := Path.exists_lexical_name hproper
      obtain ⟨s, y, rfl⟩ := (List.eq_nil_or_concat' r).resolve_left hr
      rw [hsource, ← List.cons_append, ← List.append_assoc] at hds
      obtain ⟨-, hname⟩ := List.append_singleton_inj.1 hds
      rw [← List.append_assoc, List.getLast?_concat, hname]
    · rwa [htarget] at hf
  refine ⟨fun n s c' hc' => ?_, fun now n => ?_⟩
  · rw [Tree.bytes?_eq_some, hw.after] at hc'
    split at hc'
    · rename_i heq
      rw [heq]
      rwa [← Entry.file.inj (Option.some.inj hc')]
    · exact h.files n s c' (Tree.bytes?_eq_some.2 hc')
  · rw [hw.after, if_neg, h.staging]
    intro heq
    refine hland ?_
    rw [← heq]
    have hastray : a.Foreign c (a.placeOf (stagingMark ++ nameOf now n) ++ []) := .astray not_given_staging
    rwa [List.append_nil] at hastray

/-- What is copied out of a backup is nothing foreign, by induction on the files. -/
lemma owns_copyOut (hws : Path.Clear a.workspace) {fs : List String}
    (h : ∀ f ∈ fs, (∃ r, a.targetOf f = Path.lexical a.workspace ++ r ∧ a.copyOf m f = a.placeOf m ++ filesName :: r) ∧
      ∀ now n, ¬ a.stagingPlace (nameOf now n) <+: a.targetOf f) :
    Leads a.Owns (a.copyOut (Path.join (Path.join a.root m) filesName) fs) := by
  induction fs with
  | nil => exact .pure _
  | cons f fs ih =>
    obtain ⟨⟨⟨r, hr, hr'⟩, hsettled⟩, hfs⟩ := List.forall_mem_cons.1 h
    refine .bind .get fun w => .ofResult_bind fun target ht => ?_
    obtain ⟨hclear, hplace, -⟩ := resolve_lexical w.rooted hws ht
    obtain ⟨hparent, ns, hns, -⟩ := Path.clear_parent hclear
    refine .bind (fun v => ?_) fun _ => .bind (.edit fun v t hc hown => ?_) fun _ => ih hfs
    · rw [runOn_ensureDirectories, World.located_absolute hparent.absolute]
      refine Leads.edit (R := a.Owns) (fun v t hd hown => hown.grown (Tree.ensureDirectories_grown hd) fun now n => ?_) v
      refine Tree.ensureDirectories_above hparent hd fun hpre => hsettled now n ?_
      rw [targetOf, ← hplace, hns]
      exact hpre.trans (List.prefix_append _ _)
    · exact hown.copy hclear hc hr' (hplace.trans hr)

lemma owns_restore (ha : Path.Clear a.root) (hws : Path.Clear a.workspace) (name : String) :
    Leads a.Owns (a.restore name) := by
  refine .bind_ok (.of_looks (looks_find a name)) fun w b w' hb hown => ?_
  obtain rfl : w' = w := (looks_find a name).eq hb
  have hrec := hown.find ha hb
  have hcopy : Leads a.Owns (a.copyOut (Path.join b.path filesName) b.files) := by
    rw [hrec.path]
    exact owns_copyOut hws fun f hf => ⟨hrec.placed f hf, hrec.settled f hf⟩
  have hrest : Leads a.Owns (do
      let wrong ← a.verify name
      unless wrong.isEmpty do
        throw (.plain .backupIntegrity ("Backup " ++ name ++ " is incomplete: " ++ "; ".intercalate wrong))
      told (fun k => k.isSystem || k.isValue) (.wrap .backup ("Restore of " ++ name ++ " failed"))
        (a.copyOut (Path.join b.path filesName) b.files)
      return b) := by
    refine .bind (.of_looks (looks_verify a name)) fun wrong => .ite _ ?_ ?_
    · exact .bind (.told _ _ hcopy) fun _ => .pure _
    · exact .bind (.throw _) fun _ => .bind (.told _ _ hcopy) fun _ => .pure _
  exact hrest w' hown

/-! ### Making backups -/

/-- A listed file that was archived has its bytes still, neither in a staging directory nor above the archive, and its
copy is nothing foreign. -/
lemma Made.copied (h : a.Made w files b w') (hown : a.Own w.tree) {f : String} (hc : a.Copied w w' b f r) :
    r ≠ [] ∧ (∀ now n, ¬ a.stagingPlace (nameOf now n) <+: a.targetOf f) ∧
      ∃ c, w'.tree.bytes? (a.placeOf b.name ++ filesName :: r) = some c ∧ ¬ a.Foreign c (Path.lexical a.workspace ++ r) := by
  obtain ⟨c, hold, hnew, -⟩ := hc.bytes
  rw [hc.copy] at hnew
  have hroot : w'.tree.get? (Path.lexical a.root) = some .directory := by
    have harchive := h.archive
    rw [placeOf, List.append_assoc] at harchive
    exact Tree.get?_above (List.cons_ne_nil _ _) harchive
  have hbeside : ¬ a.placeOf b.name <+: a.targetOf f := by
    rintro ⟨s, hs⟩
    rw [← hs] at hold
    rcases eq_or_ne s [] with rfl | hne
    · rw [List.append_nil, h.free] at hold
      cases hold
    · rw [Tree.bytes?, h.empty s hne] at hold
      cases hold
  have hkept : w'.tree.get? (a.targetOf f) = some (.file c) := by
    rw [← Tree.bytes?_eq_some, (h.elsewhere _ hbeside).bytes?, hold]
  have hout : ¬ a.targetOf f <+: Path.lexical a.root := by
    intro hpre
    have hne : Path.lexical a.root ≠ a.targetOf f := fun heq => by
      rw [heq, hkept] at hroot
      cases hroot
    cases (Tree.get?_below_file hkept hpre hne).symm.trans hroot
  refine ⟨?_, fun now n hpre => ?_, c, hnew, ?_⟩
  · rintro rfl
    cases (Tree.bytes?_eq_some.1 hnew).symm.trans h.archive
  · rw [Tree.bytes?_below_none (hown.staging now n) hpre] at hold
    cases hold
  · rw [← hc.source]
    exact hown.native hout hold

/-- A backup that was made is nothing foreign. -/
lemma Made.own (h : a.Made w files b w') (hown : a.Own w.tree) (hb : b.Sound) : a.Own w'.tree := by
  have hgiven : Given b.name := ⟨_, _, h.named⟩
  have hrec : a.Records b.name b := by
    refine ⟨hb, h.path, fun f hf => ?_, fun f hf => ?_⟩
    · obtain ⟨r, hc⟩ := h.copies f hf
      exact ⟨r, hc.source, hc.copy⟩
    · obtain ⟨r, hc⟩ := h.copies f hf
      exact (h.copied hown hc).2.1
  refine ⟨fun n r c hc => ?_, fun now n => ?_⟩
  · by_cases hn : n = b.name
    · subst hn
      rw [foreign_given hgiven]
      have hthere := Tree.bytes?_eq_some.1 hc
      rcases h.only r (by rw [hthere]; exact nofun) with rfl | rfl | rfl | ⟨f, hf, s, hcopied, hpre⟩
      · simp
      · have hmanifest : c = Text.encode (Json.write b.manifest) := Option.some.inj (hc.symm.trans h.manifest)
        have hnames : manifestName ≠ filesName := by decide
        simp [hnames, show ∃ b', a.Records b.name b' ∧ c = Text.encode (Json.write b'.manifest) from ⟨b, hrec, hmanifest⟩]
      · cases hthere.symm.trans h.archive
      · -- Below a file there is nothing, so the file is the copy itself.
        obtain ⟨hs, -, c', hc', hnot⟩ := h.copied hown hcopied
        have heq : filesName :: s = r := by
          by_contra hne
          have hnone := Tree.get?_below_file hthere ((List.prefix_append_right_inj _).2 hpre)
            fun heq => hne (List.append_cancel_left heq)
          cases (Tree.bytes?_eq_some.1 hc').symm.trans hnone
        subst heq
        obtain rfl := Option.some.inj (hc'.symm.trans hc)
        have hnames : filesName ≠ manifestName := by decide
        simp [hs, hnot, hnames]
    · rw [(h.elsewhere _ fun hpre => ?_).bytes?] at hc
      · exact hown.files n r c hc
      · rw [placeOf, placeOf, List.append_assoc, List.prefix_append_right_inj] at hpre
        exact hn (List.cons_prefix_cons.1 hpre).1.symm
  · refine (h.elsewhere _ fun hpre => ?_).staging (hown.staging now n)
    rw [placeOf, stagingPlace, List.prefix_append_right_inj] at hpre
    exact not_given_staging ((List.cons_prefix_cons.1 hpre).1 ▸ hgiven)

/-- The worlds in which an archive can stand that is used by nothing else: nothing was in it once, and then backups were
made, restored and deleted in it, as far as that went, and anything happened outside of it. The clock tells a time of the
calendar when a backup is made, and no listed file leads through the staging directory of its own backup. -/
inductive Reached (a : Archive) : World → Prop
  | start {w : World} (h : ∀ n r, w.tree.get? (a.placeOf n ++ r) = none) : Reached a w
  | elsewhere {w w' : World} (h : Reached a w)
      (hw : ∀ n r, w'.tree.get? (a.placeOf n ++ r) = w.tree.get? (a.placeOf n ++ r)) : Reached a w'
  | created {w : World} {files : List String} (description : String) (h : Reached a w) (hw : Timely w)
      (hu : a.Unstaged w files) : Reached a (runOn w (a.create files description)).2
  | restored {w : World} (name : String) (h : Reached a w) : Reached a (runOn w (a.restore name)).2
  | pruned {w : World} (keep : Int) (h : Reached a w) : Reached a (runOn w (a.pruneKeep keep)).2
  | aged {w : World} (span : Int) (now : Option Instant) (h : Reached a w) : Reached a (runOn w (a.pruneOlder span now)).2

lemma Thinned.own (h : a.Thinned w w') (hown : a.Own w.tree) : a.Own w'.tree := by
  obtain ⟨names, -, rfl⟩ := h
  exact hown.mono fun n r e he => of_get?_without he

/-- An archive that is used by nothing else holds nothing but what its operations put there, by induction on what
happened. -/
lemma Reached.own (ha : Path.Clear a.root) (hws : Path.Clear a.workspace) (h : Reached a w) : a.Own w.tree := by
  induction h with
  | start h =>
    refine ⟨fun n r c hc => ?_, fun now n => ?_⟩
    · rw [Tree.bytes?, h] at hc
      cases hc
    · have hnone := h (stagingMark ++ nameOf now n) []
      rwa [List.append_nil] at hnone
  | elsewhere _ hw ih => exact ih.mono fun n r e he => by rwa [← hw]
  | @created w files description _ hw hu ih =>
    rcases hr : runOn w (a.create files description) with ⟨r, w'⟩
    rcases create_outcome ha hws ih.readable ih.staging hu hr with ⟨b, rfl, hmade⟩ | ⟨f, -, -, hundone⟩
    · obtain ⟨n, hb⟩ := create_ok ha hws hr
      exact hmade.own ih (hb.sound (nodup_wanted a w.here files) hw.universal hw.inCalendar)
    · exact ⟨fun n r c hc => ih.files n r c (by rwa [← hundone.files]), hundone.staging⟩
  | restored name _ ih => exact owns_restore ha hws name _ ih
  | pruned keep _ ih => exact (thinned_pruneKeep ha keep _).own ih
  | aged span now _ ih => exact (thinned_pruneOlder ha span now _).own ih

/-- **Making a backup is all or nothing** in an archive that is used by nothing else. Either a backup is made, and its
directory with the manifest and the copies of the listed files is all that is new; or nothing changes but that directories
which lead to the archive are made, no staging directory stands, the archive lists what it listed, and the fault is that of
a backup, unless no path can lead to the archive. No listed file leads through the staging directory. -/
theorem create_atomic {w₀ : World} {root workspace description : String} {r : Except Fault Backup}
    (h : Reached (Archive.at w₀.here root workspace) w) (hu : (Archive.at w₀.here root workspace).Unstaged w files)
    (hr : runOn w ((Archive.at w₀.here root workspace).create files description) = (r, w')) :
    (∃ b, r = .ok b ∧ (Archive.at w₀.here root workspace).Made w files b w') ∨
      ∃ f, r = .error f ∧ (f.kind = .backup ∨ '\x00' ∈ (Archive.at w₀.here root workspace).root.toList) ∧
        (Archive.at w₀.here root workspace).Undone w w' := by
  obtain ⟨ha, hws⟩ := clear_at w₀ root workspace
  have hown := h.own ha hws
  exact (create_outcome ha hws hown.readable hown.staging hu hr).imp_right
    fun ⟨f, hf, hkind, hundone⟩ => ⟨f, hf, hkind.imp_right And.right, hundone⟩

lemma reached_workshop : Reached shelf workshop := by
  refine .start fun n r => ?_
  have hnone : workshop.tree.get? ["w", "b"] = none := by decide
  rw [placeOf, root_shelf, List.append_assoc]
  exact Tree.get?_below_none hnone (List.prefix_append _ _)

lemma wanted_missing : shelf.wanted workshop.here ["c"] = ["c"] :=
  wanted_clean workshop.rooted (.of_all (by decide)) (by decide)

/-- A backup is made of a file that is there, and nothing is left of one of a file that is not. -/
theorem create_atomic_workshop : Reached shelf workshop ∧ shelf.Unstaged workshop ["a"] ∧
    (∃ b w', runOn workshop (shelf.create ["a"] "") = (.ok b, w') ∧ shelf.Made workshop ["a"] b w') ∧
    shelf.Unstaged workshop ["c"] ∧
    ∃ f w', runOn workshop (shelf.create ["c"] "") = (.error f, w') ∧ shelf.Undone workshop w' := by
  have ha : shelf.Unstaged workshop ["a"] := by
    intro f hf
    rw [wanted_shelf, List.mem_singleton] at hf
    rw [hf]
    exact staging_shelf _ rfl target_shelf
  have htarget : shelf.targetOf "c" = ["w", "c"] := by decide
  have hc : shelf.Unstaged workshop ["c"] := by
    intro f hf
    rw [wanted_missing, List.mem_singleton] at hf
    rw [hf]
    exact staging_shelf _ rfl htarget
  refine ⟨reached_workshop, ha, ?_, hc, ?_⟩
  · obtain ⟨b, w', -, -, hcreate, -⟩ := rewritten_steps
    rcases create_atomic reached_workshop ha hcreate with ⟨b', hb, hmade⟩ | ⟨f, hf, -⟩
    · obtain rfl := Except.ok.inj hb
      exact ⟨b, w', hcreate, hmade⟩
    · cases hf
  · rcases hr : runOn workshop (shelf.create ["c"] "") with ⟨r, w'⟩
    rcases create_atomic reached_workshop hc hr with ⟨b, rfl, hmade⟩ | ⟨f, rfl, -, hundone⟩
    · have hlisted : "c" ∈ b.files := (hmade.listed "c").2 ⟨by decide, "c", List.mem_singleton.2 rfl, by decide⟩
      obtain ⟨r, hcopied⟩ := hmade.copies "c" hlisted
      obtain ⟨x, hx, -⟩ := hcopied.bytes
      have hnone : workshop.tree.bytes? (shelf.targetOf "c") = none := by
        rw [htarget]
        decide
      cases hnone.symm.trans hx
    · exact ⟨f, w', rfl, hundone⟩

/-! ### Where more or less happens -/

/-- A workspace in which a directory has the name of the one in which a world's first backup is put together. -/
def namesake : World where
  tree := (((Tree.empty.put ["p"] .directory).put ["p", stagingMark ++ firstName] .directory).put
    ["p", stagingMark ++ firstName, filesName] .directory).put ["p", stagingMark ++ firstName, filesName, "a"]
    (.file ⟨#[120]⟩)

/-- An archive in another directory whose name is that of the workspace. -/
def stack : Archive := Archive.at namesake.here "s/p" "p"

/-- A path that leads out of the workspace and back, through the directory with that name. -/
def loop : String := "../../../p/" ++ stagingMark ++ firstName ++ "/files/a"

lemma name_namesake : nameOf namesake.now (namesake.draws + 1) = firstName := by decide

lemma workspace_stack : Path.lexical stack.workspace = ["p"] := by decide

lemma components_loop : Path.components loop = ["..", "..", "..", "p", stagingMark ++ firstName, filesName, "a"] := by
  decide

lemma clean_loop : Path.Clean loop := by
  have hfirst : loop.toList.take 2 = ['.', '.'] := by decide +kernel
  have hlast : loop.toList.getLast? = some 'a' := by decide +kernel
  have hslashed : '\\' ∉ loop.toList := by decide +kernel
  obtain ⟨s, hs⟩ : ∃ s, loop.toList = '.' :: '.' :: s :=
    ⟨_, (List.take_append_drop 2 loop.toList).symm.trans (congrArg (· ++ loop.toList.drop 2) hfirst)⟩
  have htrimmed : ∀ p : Char → Bool, p '.' = false → p 'a' = false → Text.Trimmed p loop.toList := fun p hp hp' =>
    ⟨by simpa [hs] using hp, by simpa [hlast] using hp'⟩
  exact ⟨by simp [Path.isAbsolute, hs], htrimmed _ rfl rfl, htrimmed _ rfl rfl, hslashed, by simp [hs]⟩

/-- The path leads to the file in the workspace, and to a copy that lies directly among the others. -/
lemma routed_loop : stack.Routed (nameOf namesake.now (namesake.draws + 1)) loop
    ["p", stagingMark ++ firstName, filesName, "a"]
    (stack.stagingPlace (nameOf namesake.now (namesake.draws + 1)) ++ [filesName]) "a" := by
  rw [name_namesake]
  refine ⟨clean_loop.relative, ?_, ?_, ?_, List.prefix_rfl⟩
  · rw [workspace_stack, components_loop]
    decide
  · rw [workspace_stack]
    exact List.prefix_append ["p"] _
  · rw [components_loop]
    decide

/-- A blank path is passed over and the root of the archive is made; a path through a directory with the name of the
staging directory is archived in another place than its file has in the workspace; and a root that is no path is refused
with a fault that is not one of backups. -/
theorem create_not_atomic :
    (∃ b w', runOn workshop (shelf.create [""] "") = (.ok b, w') ∧ workshop.tree.bytes? (shelf.targetOf "") = none ∧
      workshop.tree.get? (Path.lexical shelf.root) = none ∧ w'.tree.get? (Path.lexical shelf.root) = some .directory) ∧
    (∃ b w', runOn namesake (stack.create [loop] "") = (.ok b, w') ∧
      stack.targetOf loop = Path.lexical stack.workspace ++ [stagingMark ++ firstName, filesName, "a"] ∧
      w'.tree.get? (stack.placeOf b.name ++ [filesName, stagingMark ++ firstName, filesName, "a"]) = none) ∧
    ∃ f w', runOn workshop ((Archive.at workshop.here "w/\x00" "w").create ["a"] "") = (.error f, w') ∧
      f.kind ≠ .backup := by
  refine ⟨?_, ?_, ?_⟩
  · obtain ⟨ha, hws⟩ := clear_shelf
    obtain ⟨t, hensure, hbare, -⟩ := ensure_workshop
    have hblank : shelf.wanted workshop.here [""] = [] := by decide
    obtain ⟨b, u, hcreate, hname, hout, -⟩ := holds_workshop.create_granted ha hws workspace_shelf (by decide) [""] "" hensure
      ⟨hbare.vacant (by decide), by simp [hblank], by simp [hblank]⟩
    refine ⟨b, _, hcreate, by decide, by decide, ?_⟩
    rw [← hbare.root]
    exact hout _ fun hpre => absurd hpre.length_le (by simp [placeOf])
  · obtain ⟨ha, hws⟩ := clear_at namesake "s/p" "p"
    obtain ⟨t, hensure, hbare, hother⟩ := ensure_below (w := namesake) ha "/" "s" "p" ⟨by decide, by decide⟩ (by decide)
      (by decide) (by decide) (Tree.get?_nil _) (by decide)
    have hfile : t.get? ["p", stagingMark ++ firstName, filesName, "a"] = some (.file ⟨#[120]⟩) := by
      rw [hother _ fun hpre => absurd (List.cons_prefix_cons.1 hpre).1 (by decide)]
      decide
    obtain ⟨b, u, hcreate, hname, -, hcopies⟩ := routed_loop.create_alone isName_a ha hws
      (by rw [workspace_stack]; exact List.cons_ne_nil _ _) (holds_nowhere (by decide)) (by decide) [loop]
      (wanted_clean Path.isAbsolute_root clean_loop (by decide)) hensure (hbare.vacant (by decide)) hfile ""
    refine ⟨b, _, hcreate, ?_, by rw [hcopies, if_neg (by decide), if_neg (by decide)]⟩
    rw [routed_loop.targetOf_eq hws, workspace_stack]
    rfl
  · have hr : (runOn workshop ((Archive.at workshop.here "w/\x00" "w").create ["a"] "")).1.mapError (·.kind) =
        .error .value := by decide
    rcases hx : runOn workshop ((Archive.at workshop.here "w/\x00" "w").create ["a"] "") with ⟨f | b, w'⟩
    · rw [hx] at hr
      have hkind : f.kind = .value := Except.error.inj hr
      exact ⟨f, w', rfl, by rw [hkind]; decide⟩
    · rw [hx] at hr
      cases hr

end Ratchet.Archive
