import Ratchet.Proofs.Backup.Restoring

/-!
Checking a backup that was just made.

A file is copied in under the normal form of the text that lists it, and looked for under the text itself. Both have the
same place, in the backup as in the workspace, so a copy that is reached has the bytes whose digest is recorded. A text
that climbs out of a directory leads nowhere unless that directory was archived too, and the file is said to be missing.
-/

namespace Ratchet.Archive

open Act

variable {a : Archive} {w w' : World} {b : Backup}

/-! ### Where a file and its copies lie -/

/-- Two places that are reached from two others in one way, and lie below them, lie equally far below: no more than one
name is taken back on the way, unless the way leads back through the first of the last two names of the second place. -/
lemma exists_below {W R q : Place} {k : ℕ} {x y : String} (hW : W ≠ []) (hx : x ∉ W.rdrop k ++ q)
    (hw : W <+: W.rdrop k ++ q) (hd : R ++ [x, y] <+: (R ++ [x, y]).rdrop k ++ q) :
    ∃ r, W.rdrop k ++ q = W ++ r ∧ ∀ z, (R ++ [z, y]).rdrop k ++ q = R ++ [z, y] ++ r := by
  have hpair : ∀ z, R ++ [z, y] = R ++ [z] ++ [y] := fun z => by simp
  rcases k with _ | _ | k
  · exact ⟨q, by simp, fun z => by simp⟩
  · obtain ⟨V, v, rfl⟩ := (List.eq_nil_or_concat' W).resolve_left hW
    rw [List.rdrop_concat_succ, List.rdrop_zero, List.prefix_append_right_inj] at hw
    rw [hpair, List.rdrop_concat_succ, List.rdrop_zero, List.prefix_append_right_inj] at hd
    obtain ⟨r, rfl⟩ := hd
    obtain rfl : v = y := (List.cons_prefix_cons.1 hw).1
    refine ⟨r, by rw [List.rdrop_concat_succ, List.rdrop_zero, List.append_assoc], fun z => ?_⟩
    rw [hpair, List.rdrop_concat_succ, List.rdrop_zero, List.append_assoc (R ++ [z])]
  · -- What is left of the second place ends before `x`, which is then one of the names that are added.
    rw [hpair, List.rdrop_concat_succ, List.rdrop_concat_succ, List.rdrop] at hd
    have hsplit : R ++ [x] ++ [y] = R.take (R.length - k) ++ (R.drop (R.length - k) ++ [x, y]) := by
      rw [← List.append_assoc, List.take_append_drop]
      simp
    rw [hsplit, List.prefix_append_right_inj] at hd
    exact absurd (List.mem_append_right _ (hd.subset (by simp))) hx

/-- The place of a listed file in the workspace is that of its copy in the staging directory, and the place where the
copy is looked for, unless the file lies in a directory with the name of the staging directory. -/
lemma exists_copyOf (ha : Path.Clear a.root) (hws : Path.Clear a.workspace) (hW : Path.lexical a.workspace ≠ [])
    {now : Instant} {n : Nat} {f : String} (hstaging : stagingMark ++ nameOf now n ∉ a.targetOf f)
    (hin : Path.lexical a.workspace <+: a.targetOf f)
    (hbelow : a.stagingPlace (nameOf now n) ++ [filesName] <+: a.copyOf (stagingMark ++ nameOf now n) f) :
    ∃ r, a.targetOf f = Path.lexical a.workspace ++ r ∧
      a.copyOf (stagingMark ++ nameOf now n) f = a.stagingPlace (nameOf now n) ++ filesName :: r ∧
      a.copyOf (nameOf now n) f = a.placeOf (nameOf now n) ++ filesName :: r := by
  have hsites := sites_nameOf ha now n
  obtain ⟨hclear, hplace⟩ := hsites.place.1.child (n := filesName) (by decide) (by decide)
  rw [hsites.place.2] at hplace
  by_cases hf : Path.isAbsolute f = true
  · -- An absolute path has one place, which lies in the staging directory.
    rw [copyOf, Path.join, if_pos hf] at hbelow
    rw [targetOf, Path.join, if_pos hf] at hstaging
    exact absurd (hbelow.subset (by simp [stagingPlace])) hstaging
  · obtain ⟨q, k, hjoin⟩ := Path.exists_lexical_join (Bool.eq_false_iff.2 hf)
    have htarget : a.targetOf f = (Path.lexical a.workspace).rdrop k ++ q := hjoin _ hws.ne_empty
    have hcopy : a.copyOf (stagingMark ++ nameOf now n) f =
        (Path.lexical a.root ++ [stagingMark ++ nameOf now n, filesName]).rdrop k ++ q := by
      rw [copyOf, hjoin _ hsites.files.1.ne_empty, hsites.files.2, stagingPlace, List.append_assoc]
      rfl
    have hfound : a.copyOf (nameOf now n) f = (Path.lexical a.root ++ [nameOf now n, filesName]).rdrop k ++ q := by
      rw [copyOf, hjoin _ hclear.ne_empty, hplace, placeOf, List.append_assoc]
      rfl
    rw [htarget] at hstaging hin
    rw [hcopy, stagingPlace, List.append_assoc] at hbelow
    obtain ⟨r, hr, hall⟩ := exists_below hW hstaging hin hbelow
    refine ⟨r, by rw [htarget, hr], ?_, ?_⟩
    · rw [hcopy, hall, stagingPlace]
      simp
    · rw [hfound, hall, placeOf]
      simp

/-! ### Copies with the bytes of their files -/

/-- Whether everything in a directory of copies lies in the workspace with the bytes that it had. -/
def Mirrors (a : Archive) (old : Place → Option ByteArray) (d : Place) (u : Tree) : Prop :=
  ∀ r c, u.bytes? (d ++ r) = some c → old (Path.lexical a.workspace ++ r) = some c

/-- One file is copied in, to where it lies in the workspace. -/
lemma Mirrors.step {old : Place → Option ByteArray} {u v x : Tree} {files : List String}
    {dir f source target here : String} {c : ByteArray} {r : Place} (hh : Path.isAbsolute here = true)
    (hws : Path.Clear a.workspace) (hdir : Path.Clear dir) (h : a.Mirrors old (Path.lexical dir) u)
    (hcopying : a.Copying old files (Path.lexical dir) u) (hout : ¬ Path.lexical dir <+: a.targetOf f)
    (hr : a.targetOf f = Path.lexical a.workspace ++ r)
    (hr' : Path.lexical (Path.join dir f) = Path.lexical dir ++ r)
    (hs : Workspace.resolve here a.workspace f = .ok source) (ht : Workspace.resolve here dir f = .ok target)
    (hg : Tree.Grown u v) (hc : v.copy source target = .ok x) (hread : x.read target = .ok c) :
    a.Mirrors old (Path.lexical dir) x := by
  obtain ⟨-, hsource, -⟩ := resolve_lexical hh hws hs
  obtain ⟨-, htarget, -⟩ := resolve_lexical hh hdir ht
  obtain ⟨hbytes, -, hafter⟩ := copy_read hc hread
  rw [hsource, ← targetOf, hg.bytes?, hcopying.outside _ hout, hr] at hbytes
  rw [htarget, hr'] at hafter
  intro r' c' hc'
  by_cases heq : r' = r
  · rw [heq, Tree.bytes?, hafter, if_pos rfl] at hc'
    rw [heq, hbytes, ← Option.some.inj hc']
  · refine h r' c' ?_
    have hsame : x.bytes? (Path.lexical dir ++ r') = v.bytes? (Path.lexical dir ++ r') :=
      Tree.bytes?_congr (by rw [hafter, if_neg fun h => heq (List.append_cancel_left h)])
    rwa [hsame, hg.bytes?] at hc'

/-- Files are copied in, by induction on those that are left. -/
lemma copyIn_mirrors {old : Place → Option ByteArray} {files fs : List String} {dir : String}
    {ds : List (String × String)} (hws : Path.Clear a.workspace) (hdir : Path.Clear dir) (hfs : ∀ f ∈ fs, f ∈ files)
    (hplaces : ∀ f ∈ fs, ¬ Path.lexical dir <+: a.targetOf f ∧ ∃ r, a.targetOf f = Path.lexical a.workspace ++ r ∧
      Path.lexical (Path.join dir f) = Path.lexical dir ++ r)
    (hcopying : a.Copying old files (Path.lexical dir) w.tree) (h : a.Mirrors old (Path.lexical dir) w.tree)
    (hr : runOn w (a.copyIn dir fs) = (.ok ds, w')) : a.Mirrors old (Path.lexical dir) w'.tree := by
  induction fs generalizing w ds with
  | nil => rwa [← (Prod.mk.inj hr).2]
  | cons f fs ih =>
    obtain ⟨source, target, v, x, c, ds', hs, ht, hg, hc, hread, rfl, hrest⟩ := copyIn_cons hr
    rw [World.located_absolute (resolve_lexical w.rooted hdir ht).1.absolute] at hread
    have hgrown := Tree.ensureDirectories_grown hg
    obtain ⟨hout, r, htarget, hplace⟩ := hplaces f List.mem_cons_self
    have hstep : a.Mirrors old (Path.lexical dir) x :=
      h.step w.rooted hws hdir hcopying hout htarget hplace hs ht hgrown hc hread
    have hrest' : a.Copying old files (Path.lexical dir) x :=
      (hcopying.step w.rooted hws hdir (hfs f List.mem_cons_self) hs ht hgrown hc hread).1
    exact ih (fun g hg => hfs g (List.mem_cons_of_mem f hg)) (fun g hg => hplaces g (List.mem_cons_of_mem f hg))
      hrest' hstep hrest

/-- A file that was copied in lies in the workspace. -/
lemma workspace_prefix_targetOf (hws : Path.Clear a.workspace) {here f : String} (hh : Path.isAbsolute here = true)
    (h : (Path.within? here a.workspace f).isSome = true) : Path.lexical a.workspace <+: a.targetOf f := by
  obtain ⟨p, hp⟩ := Option.isSome_iff_exists.1 h
  have hr : Workspace.resolve here a.workspace f = .ok p := by
    unfold Workspace.resolve
    rw [hp]
  obtain ⟨-, hplace, hbelow⟩ := resolve_lexical hh hws hr
  rwa [hplace] at hbelow

/-- An archived copy is looked for in the backup's directory, where its file lies in the workspace, and it has the bytes
that its file had. -/
structure Exact (a : Archive) (old : Place → Option ByteArray) (u : Tree) (name f : String) : Prop where
  placed : ∃ r, a.targetOf f = Path.lexical a.workspace ++ r ∧ a.copyOf name f = a.placeOf name ++ filesName :: r
  bytes : ∃ c, u.bytes? (a.copyOf name f) = some c ∧ old (a.targetOf f) = some c

/-- A backup that is put together has exact copies. -/
lemma assemble_exact (ha : Path.Clear a.root) (hws : Path.Clear a.workspace) (hW : Path.lexical a.workspace ≠ [])
    {now : Instant} {n : Nat} {description : String} {files : List String}
    (hstaging : ∀ f ∈ files, stagingMark ++ nameOf now n ∉ a.targetOf f)
    (h : runOn w (a.assemble now (nameOf now n) description files) = (.ok b, w')) :
    ∀ f ∈ files, a.Exact w.tree.bytes? w'.tree (nameOf now n) f := by
  have hsites := sites_nameOf ha now n
  obtain ⟨t, u, t', t'', ht, hcopy, -, -, ht', ht'', -, rfl⟩ := assemble_steps hsites.manifest.1.absolute h
  have hmoved := moved ha ht' ht''
  have hgrown := Tree.newDirectories_grown ht
  have hnew : w.tree.get? (a.stagingPlace (nameOf now n) ++ [filesName]) = none := by
    rw [← hsites.staging.2]
    exact (Tree.newDirectories_ok hsites.staging.1 (by decide) (by decide) ht).1
  have hempty : ∀ p, a.stagingPlace (nameOf now n) ++ [filesName] <+: p → t.bytes? p = none := fun p hp => by
    rw [hgrown.bytes?, Tree.bytes?_below_none hnew hp]
  have hcopying : a.Copying w.tree.bytes? files
      (Path.lexical (Path.join (Path.join a.root (stagingMark ++ nameOf now n)) filesName)) t :=
    ⟨fun p _ => hgrown.bytes? p, fun p c hp hc => by
      rw [hempty p (hsites.files.2 ▸ hp)] at hc
      exact absurd hc nofun⟩
  obtain ⟨-, -, hdigested, -, harchived⟩ := copyIn_ok hws hsites.files.1 (fun f hf => hf) hcopying hcopy
  have heach : ∀ f ∈ files, ∃ d, a.Archived w.tree.bytes? files
      (Path.join (Path.join a.root (stagingMark ++ nameOf now n)) filesName) u.tree f d := by
    intro f hf
    rw [← hdigested] at hf
    obtain ⟨x, hx, rfl⟩ := List.mem_map.1 hf
    exact ⟨x.2, harchived x hx⟩
  have hplaces : ∀ f ∈ files, ∃ r, a.targetOf f = Path.lexical a.workspace ++ r ∧
      a.copyOf (stagingMark ++ nameOf now n) f = a.stagingPlace (nameOf now n) ++ filesName :: r ∧
      a.copyOf (nameOf now n) f = a.placeOf (nameOf now n) ++ filesName :: r := by
    intro f hf
    obtain ⟨d, hd⟩ := heach f hf
    refine exists_copyOf ha hws hW (hstaging f hf)
      (workspace_prefix_targetOf hws w.rooted (copyIn_within hcopy f hf)) ?_
    rw [← hsites.files.2]
    exact hd.below
  have hmirrors : a.Mirrors w.tree.bytes?
      (Path.lexical (Path.join (Path.join a.root (stagingMark ++ nameOf now n)) filesName)) u.tree := by
    refine copyIn_mirrors hws hsites.files.1 (fun f hf => hf) (fun f hf => ⟨fun hpre => ?_, ?_⟩) hcopying
      (fun r c hc => ?_) hcopy
    · rw [hsites.files.2] at hpre
      exact hstaging f hf (hpre.subset (by simp [stagingPlace]))
    · obtain ⟨r, hr, hr', -⟩ := hplaces f hf
      exact ⟨r, hr, by rw [← copyOf, hr', hsites.files.2]; simp⟩
    · rw [hsites.files.2, hempty _ (List.prefix_append _ _)] at hc
      exact absurd hc nofun
  intro f hf
  obtain ⟨d, hd⟩ := heach f hf
  obtain ⟨r, hr, hr', hfound⟩ := hplaces f hf
  obtain ⟨c, hc⟩ := Option.isSome_iff_exists.1 hd.copy
  rw [← copyOf, hr'] at hc
  refine ⟨⟨r, hr, hfound⟩, c, ?_, ?_⟩
  · rw [hfound, Tree.bytes?_congr (hmoved.inside _ fun h => absurd (List.cons.inj h).1 (by decide)), hc]
  · rw [hr]
    refine hmirrors r c ?_
    rw [hsites.files.2, List.append_assoc]
    exact hc

/-- A backup that was made has exact copies. -/
lemma create_exact (ha : Path.Clear a.root) (hws : Path.Clear a.workspace) (hW : Path.lexical a.workspace ≠ [])
    {files : List String} {description : String} (h : runOn w (a.create files description) = (.ok b, w'))
    (hstaging : ∀ f ∈ b.files, stagingMark ++ b.name ∉ a.targetOf f) :
    ∀ f ∈ b.files, a.Exact w.tree.bytes? w'.tree b.name f := by
  rcases create_cases h with ⟨f, hf, -⟩ | ⟨u, he, n, v, -, rfl, ⟨b', hb, hr⟩ | ⟨f, x, -, ⟨-, hf, -⟩ | ⟨-, hf, -⟩⟩⟩
  · exact absurd hf nofun
  · obtain rfl := Except.ok.inj hb
    obtain ⟨t, hg, rfl⟩ := ensure_ok he
    have hsame : t.bytes? = w.tree.bytes? := funext hg.bytes?
    have hsaid := (assemble_ok ha hws hr).said
    rw [hsaid] at hstaging ⊢
    have hexact := assemble_exact ha hws hW hstaging hr
    dsimp only at hexact
    rwa [hsame] at hexact
  · exact absurd hf nofun
  · exact absurd hf nofun

/-! ### Checking a backup -/

/-- Whether the text that lists a file leads anywhere among archived copies. -/
def leads (t : Tree) (dir f : String) : Bool := (t.place (Path.join dir f)).isOk

/-- What is said of files that their texts do not lead to. -/
def missing (t : Tree) (dir : String) (fs : List String) : List String :=
  (fs.filter fun f => !leads t dir f).map ("missing: " ++ ·)

lemma missing_eq_nil {t : Tree} {dir : String} {fs : List String} :
    missing t dir fs = [] ↔ ∀ f ∈ fs, leads t dir f = true := by
  simp [missing]

/-- Where a file is, a text leads there if it leads anywhere. -/
lemma isFile_eq_leads {t : Tree} {dir f : String} {c : ByteArray}
    (h : t.bytes? (Path.lexical (Path.join dir f)) = some c) : t.isFile (Path.join dir f) = leads t dir f := by
  rw [Bool.eq_iff_iff, Tree.isFile_iff, leads]
  constructor
  · rintro ⟨p, c', hs⟩
    rw [(Tree.stat_eq.1 hs).1]
    rfl
  · intro hok
    rcases hp : t.place (Path.join dir f) with e | p
    · rw [hp] at hok
      exact absurd hok nofun
    · obtain rfl := Tree.place_lexical hp
      exact ⟨_, c, Tree.stat_eq.2 ⟨hp, Tree.bytes?_eq_some.1 h⟩⟩

/-- Of archived files that have the bytes whose digests are recorded, those are missed whose texts lead nowhere. -/
lemma runOn_problems {dir : String} {fs : List String} (hd : Path.isAbsolute dir = true)
    (h : ∀ f ∈ fs, ∃ c, w.tree.bytes? (Path.lexical (Path.join dir f)) = some c ∧
      b.digests.lookup f = some (Digest.sha256 c)) :
    runOn w (problems b dir fs) = (.ok (missing w.tree dir fs), w) := by
  induction fs with
  | nil => rfl
  | cons f fs ih =>
    obtain ⟨⟨c, hc, hdigest⟩, hfs⟩ := List.forall_mem_cons.1 h
    have hlocated := World.located_absolute (w := w) (Path.isAbsolute_join f hd)
    have hrest : ∀ found : List String, runOn w (do return found ++ (← problems b dir fs)) =
        (.ok (found ++ missing w.tree dir fs), w) := fun found => by
      rw [runOn_bind_ok _ (ih hfs), runOn_pure]
    rw [problems, runOn_bind_ok _ (runOn_isFile _), hlocated, isFile_eq_leads hc, runOn_ite]
    by_cases hlead : leads w.tree dir f = true
    · obtain ⟨c', hread, hget⟩ := Tree.read_of_isFile ((isFile_eq_leads hc).trans hlead)
      obtain rfl : c' = c := Option.some.inj ((Tree.bytes?_eq_some.2 hget).symm.trans hc)
      have hbytes : runOn w (readBytes (Path.join dir f)) = (.ok c', w) := by rw [runOn_readBytes, hlocated, hread]
      have hmissing : missing w.tree dir (f :: fs) = missing w.tree dir fs := by simp [missing, hlead]
      rw [if_pos hlead, runOn_bind_ok _ hbytes, hdigest, hmissing, runOn_ite, if_neg (by simp)]
      exact hrest []
    · have hmissing : missing w.tree dir (f :: fs) = ("missing: " ++ f) :: missing w.tree dir fs := by
        simp [missing, hlead]
      rw [if_neg hlead, hmissing]
      exact hrest ["missing: " ++ f]

/-- A text that climbs nowhere and ends with a name leads to what is there. -/
lemma leads_of_level {t : Tree} {dir f : String} {e : Entry} (hd : Path.Clear dir) (hf : Path.Level f)
    (h : t.get? (Path.lexical (Path.join dir f)) = some e) : leads t dir f = true := by
  obtain ⟨p, hp⟩ := Tree.place_level (hf.join hd) h
  rw [leads, hp]
  rfl

/-- A text that leads on from a name that is not there leads nowhere. -/
lemma not_leads {t : Tree} {dir f n m : String} {ms : List String} {p : Place} (hd : t.stat dir = .ok (p, .directory))
    (hrel : Path.isAbsolute f = false) (hf : Path.components f = n :: m :: ms) (hn : isName n = true)
    (h : t.get? (p ++ [n]) = none) : leads t dir f = false := by
  have hfollow : t.follow p ([n] ++ m :: ms) = .error .noEntry := by
    rw [Tree.follow_append, Tree.follow_name (Tree.stat_eq.1 hd).2 hn]
    exact (Tree.follow_cons _ _ _ _).trans (by rw [h])
  rw [leads, Tree.place_join hd hrel, hf, ← List.singleton_append, hfollow]
  rfl

section
variable {w₀ w₁ : World} {root workspace description : String} {files : List String}

/-- **What checking a backup finds right after it was made**: only the listed files whose texts lead nowhere among the
archived copies. -/
lemma verify_created (ha : Path.Clear a.root) (hws : Path.Clear a.workspace) (hw : Timely w₀)
    (hcreate : runOn w₀ (a.create files description) = (.ok b, w₁)) (hW : Path.lexical a.workspace ≠ [])
    (hstaging : ∀ f ∈ b.files, stagingMark ++ b.name ∉ a.targetOf f) :
    runOn w₁ (a.verify b.name) = (.ok (missing w₁.tree (Path.join b.path filesName) b.files), w₁) := by
  have hexact := create_exact ha hws hW hcreate hstaging
  obtain ⟨n, hb⟩ := create_ok ha hws hcreate
  have hname : b.name = nameOf w₀.now n := by rw [hb.said]
  have hfiles : b.files = a.wanted w₀.here files := by rw [hb.said]
  have hpath : b.path = Path.join a.root b.name := by rw [hb.said]
  have hfind : runOn w₁ (a.find b.name) = (.ok b, w₁) := by
    obtain ⟨hproper, hslash, -⟩ := proper_nameOf w₀.now n
    refine runOn_find ha (hb.sound (nodup_wanted a w₀.here files) hw.universal hw.inCalendar) hpath ?_ ?_ ?_ ?_
    · exact hname ▸ listed_nameOf w₀.now n
    · exact hname ▸ ⟨hproper, hslash⟩
    · exact hname ▸ plain_nameOf w₀.now n
    · rw [hname]
      exact hb.manifest
  have hdir : Path.isAbsolute (Path.join b.path filesName) = true := by
    rw [hpath, hname]
    exact ((sites_nameOf ha w₀.now n).place.1.child (n := filesName) (by decide) (by decide)).1.absolute
  refine (runOn_bind_ok _ hfind).trans (runOn_problems hdir fun f hf => ?_)
  obtain ⟨c, hc, hold⟩ := (hexact f hf).bytes
  refine ⟨c, by rw [hpath]; exact hc, hb.lookup (nodup_wanted a w₀.here files) ?_ hold⟩
  rwa [hfiles] at hf

/-- **A backup is found intact right after it was made, just when every listed text leads somewhere among the archived
copies**, as those do that climb nowhere and end with a name; what is found wrong is what leads nowhere. The workspace is
not the root of all files, and no listed file lies in a directory with the name of the staging directory. -/
theorem intact_iff {root workspace : String} (hw : Timely w₀)
    (hcreate : runOn w₀ ((Archive.at w₀.here root workspace).create files description) = (.ok b, w₁))
    (hW : Path.lexical (Archive.at w₀.here root workspace).workspace ≠ [])
    (hstaging : ∀ f ∈ b.files, stagingMark ++ b.name ∉ (Archive.at w₀.here root workspace).targetOf f) :
    (runOn w₁ ((Archive.at w₀.here root workspace).verify b.name) = (.ok [], w₁) ↔
      ∀ f ∈ b.files, leads w₁.tree (Path.join b.path filesName) f = true) ∧
    (∀ f ∈ b.files, Path.Level f → leads w₁.tree (Path.join b.path filesName) f = true) ∧
    runOn w₁ ((Archive.at w₀.here root workspace).verify b.name) =
      (.ok (missing w₁.tree (Path.join b.path filesName) b.files), w₁) := by
  obtain ⟨ha, hws⟩ := clear_at w₀ root workspace
  have hverify := verify_created ha hws hw hcreate hW hstaging
  refine ⟨?_, fun f hf hlevel => ?_, hverify⟩
  · rw [hverify, ← missing_eq_nil]
    exact ⟨fun h => Except.ok.inj (Prod.mk.inj h).1, fun h => by rw [h]⟩
  · obtain ⟨n, hb⟩ := create_ok ha hws hcreate
    have hpath : b.path = Path.join (Archive.at w₀.here root workspace).root b.name := by rw [hb.said]
    have hname : b.name = nameOf w₀.now n := by rw [hb.said]
    obtain ⟨c, hc, -⟩ := (create_exact ha hws hW hcreate hstaging f hf).bytes
    rw [copyOf, ← hpath] at hc
    refine leads_of_level ?_ hlevel (Tree.bytes?_eq_some.1 hc)
    rw [hpath, hname]
    exact ((sites_nameOf ha w₀.now n).place.1.child (n := filesName) (by decide) (by decide)).1

end

/-! ### A text that climbs out of a directory that is not archived -/

lemma workspace_shelf : Path.lexical shelf.workspace ≠ [] := by decide

/-- A file of the workspace itself that has a short name does not lie in a staging directory. -/
lemma staging_shelf {f n : String} (name : String) (hn : n.length = 1) (htarget : shelf.targetOf f = ["w", n]) :
    stagingMark ++ name ∉ shelf.targetOf f := by
  have hlength : (stagingMark ++ name).length = 9 + name.length := by
    rw [String.length_append]
    rfl
  rw [htarget, List.mem_pair]
  rintro (h | h)
  · rw [h] at hlength
    exact absurd hlength (by change ¬ (1 = _); omega)
  · rw [h, hn] at hlength
    omega

/-- A file that is listed by its name is found intact. -/
theorem intact_iff_level : ∃ b w₁, Timely workshop ∧ runOn workshop (shelf.create ["a"] "") = (.ok b, w₁) ∧
    Path.lexical shelf.workspace ≠ [] ∧ (∀ f ∈ b.files, stagingMark ++ b.name ∉ shelf.targetOf f) ∧
    b.files = ["a"] ∧ Path.Level "a" ∧ runOn w₁ (shelf.verify b.name) = (.ok [], w₁) := by
  obtain ⟨b, w₁, -, -, hcreate, -, -, -, hfiles⟩ := rewritten_steps
  have hstaging : ∀ f ∈ b.files, stagingMark ++ b.name ∉ shelf.targetOf f := by
    intro f hf
    rw [hfiles, List.mem_singleton] at hf
    rw [hf]
    exact staging_shelf b.name rfl target_shelf
  obtain ⟨hiff, hlevel, -⟩ := intact_iff timely_workshop hcreate workspace_shelf hstaging
  have ha : Path.Level "a" := ⟨by decide, by decide⟩
  refine ⟨b, w₁, timely_workshop, hcreate, workspace_shelf, hstaging, hfiles, ha, hiff.2 fun f hf => hlevel f hf ?_⟩
  rw [hfiles, List.mem_singleton] at hf
  rw [hf]
  exact ha

/-- A workspace with a file beside a directory with another one. -/
def bench : World where
  tree := (workshop.tree.put ["w", "d"] .directory).put ["w", "d", "e"] (.file ⟨#[121]⟩)

lemma timely_bench : Timely bench := ⟨rfl, timely_workshop.inCalendar⟩

lemma components_climbing : Path.components "d/../a" = ["d", "..", "a"] := by decide

/-- The text leads to the file, and to a copy that lies directly among the others. -/
lemma routed_climbing (name : String) :
    shelf.Routed name "d/../a" ["w", "a"] (shelf.stagingPlace name ++ [filesName]) "a" := by
  refine ⟨by decide, ?_, ?_, ?_, List.prefix_rfl⟩
  · rw [components_climbing, lexical_workspace_shelf]
    rfl
  · rw [lexical_workspace_shelf]
    exact List.prefix_append ["w"] ["a"]
  · rw [components_climbing]
    simp [Path.follow]

/-- A backup that was just made can be found incomplete: the text of a listed file leads through a directory that is not
there among the archived copies. -/
theorem not_intact_climbing : ∃ b w₁, runOn bench (shelf.create ["d/../a"] "") = (.ok b, w₁) ∧
    runOn w₁ (shelf.verify b.name) = (.ok ["missing: d/../a"], w₁) ∧
    runOn w₁ (shelf.verify b.name) ≠ (.ok [], w₁) := by
  obtain ⟨ha, hws⟩ := clear_shelf
  obtain ⟨t, hensure, hbare, hother⟩ := ensure_new (w := bench) ha "/w" "b" ⟨by decide, by decide⟩ (by decide) (by decide)
    (by decide) (by decide)
  have hfile : t.get? ["w", "a"] = some (.file ⟨#[120]⟩) := by
    rw [hother _ (by rw [root_shelf]; decide)]
    decide
  obtain ⟨b, u, hcreate, hname, hfiles, hcopies⟩ := (routed_climbing _).create_alone isName_a ha hws
    workspace_shelf (holds_nowhere (by decide)) (by decide) ["d/../a"] (by decide) hensure (hbare.vacant (by decide)) hfile ""
  obtain ⟨hdir, hplace⟩ := copies_created ha hws hcreate
  have hstat : u.stat (Path.join b.path filesName) = .ok (shelf.placeOf b.name ++ [filesName], .directory) := by
    have hthere : u.get? (Path.lexical (Path.join b.path filesName)) = some .directory := by
      rw [hplace, hcopies, if_pos rfl]
    rw [← hplace]
    exact Tree.stat_eq.2 ⟨Tree.place_of_get? hdir hthere (.inl rfl), hthere⟩
  have hlost : leads u (Path.join b.path filesName) "d/../a" = false := by
    refine not_leads hstat (by decide) components_climbing (by decide) ?_
    rw [List.append_assoc, List.singleton_append, hcopies, if_neg (by decide), if_neg (by decide)]
  have hverify := verify_created ha hws timely_bench hcreate workspace_shelf fun f hf => by
    rw [hfiles, List.mem_singleton] at hf
    rw [hf]
    exact staging_shelf b.name (rfl : "a".length = 1) (by decide)
  have hmissing : missing u (Path.join b.path filesName) b.files = ["missing: d/../a"] := by
    simp [missing, hfiles, hlost]
  rw [hmissing] at hverify
  refine ⟨b, _, hcreate, hverify, fun hok => ?_⟩
  rw [hverify] at hok
  exact absurd (Except.ok.inj (Prod.mk.inj hok).1) (List.cons_ne_nil _ _)

end Ratchet.Archive
