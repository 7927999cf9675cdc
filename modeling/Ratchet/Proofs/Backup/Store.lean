import Mathlib.Data.List.Sort
import Ratchet.Proofs.Backup.Manifest
import Ratchet.Proofs.Backup.Spared
import Ratchet.Proofs.Tree.Children
import Ratchet.Proofs.Workspace

/-!
What an archive holds.

`Holds` says that the manifests in an archive are those of some backups, told apart by their names and in the order
of their sequence numbers. It speaks of the files in the archive only, so it does not depend on how
they came there; what reads the archive answers those backups.
-/

namespace Ratchet.Archive

open Act

variable {a : Archive} {w w' : World} {b : Backup} {bs xs ys : List Backup} {n : String} {limit : Instant}

lemma root_at (here root workspace : String) : (Archive.at here root workspace).root = Path.absolute here root := by
  rw [«at»]

lemma workspace_at (here root workspace : String) :
    (Archive.at here root workspace).workspace = Path.absolute here workspace := by
  rw [«at»]

/-- The archive of a workspace lies at a clear path, whatever they are seen from. -/
lemma clear_at (w : World) (root workspace : String) :
    Path.Clear (Archive.at w.here root workspace).root ∧ Path.Clear (Archive.at w.here root workspace).workspace := by
  rw [root_at, workspace_at]
  exact ⟨Path.clear_absolute root w.rooted, Path.clear_absolute workspace w.rooted⟩

/-- The place of the manifest of a backup. -/
def manifestPlace (a : Archive) (name : String) : Place := a.placeOf name ++ [manifestName]

lemma root_prefix_manifestPlace (a : Archive) (name : String) : Path.lexical a.root <+: a.manifestPlace name := by
  rw [manifestPlace, placeOf, List.append_assoc]
  exact List.prefix_append _ _

/-- Whether a name is one that is listed. -/
def Listed (name : String) : Prop := name.toList.head? ≠ some '.'

/-- The place in the workspace that a listed file is seen at. -/
def targetOf (a : Archive) (f : String) : Place := Path.lexical (Path.join a.workspace f)

/-- What holds of a backup that an archive keeps. -/
structure Keeps (a : Archive) (b : Backup) : Prop where
  sound : b.Sound
  path : b.path = Path.join a.root b.name
  listed : Listed b.name
  proper : Path.Proper b.name ∧ '/' ∉ b.name.toList
  plain : '\\' ∉ b.name.toList
  positive : 1 ≤ b.sequence
  targets : ∀ f ∈ b.files, ¬ a.targetOf f <+: Path.lexical a.root

/-- The directory of a kept backup lies in the archive, under its name. -/
lemma Keeps.place {b : Backup} (ha : Path.Clear a.root) (h : a.Keeps b) : Path.lexical b.path = a.placeOf b.name := by
  rw [h.path, (ha.child h.proper.1 h.proper.2).2, placeOf]

/-- The manifests in an archive are those of some backups. -/
structure Holds (a : Archive) (w : World) (bs : List Backup) : Prop where
  keeps : ∀ b ∈ bs, a.Keeps b
  ordered : bs.Pairwise fun b c => b.sequence < c.sequence
  named : bs.Pairwise fun b c => b.name ≠ c.name
  manifests : ∀ n, Listed n → w.tree.bytes? (a.manifestPlace n) =
    (bs.find? (·.name == n)).map fun b => Text.encode (Json.write b.manifest)

/-- An archive without a manifest holds nothing. -/
lemma holds_nothing (h : ∀ n, w.tree.bytes? (a.manifestPlace n) = none) : a.Holds w [] :=
  ⟨fun _ hb => absurd hb List.not_mem_nil, .nil, .nil, fun n _ => h n⟩

/-- An archive that is not there holds nothing. -/
lemma holds_nowhere (h : w.tree.get? (Path.lexical a.root) = none) : a.Holds w [] :=
  holds_nothing fun n => Tree.bytes?_below_none h (root_prefix_manifestPlace a n)

/-- The archive holds what its manifests say, whatever else changes. -/
lemma Holds.congr (h : a.Holds w bs)
    (hw : ∀ n, Listed n → w'.tree.bytes? (a.manifestPlace n) = w.tree.bytes? (a.manifestPlace n)) : a.Holds w' bs :=
  ⟨h.keeps, h.ordered, h.named, fun n hn => (hw n hn).trans (h.manifests n hn)⟩

/-- A backup is found by its name. -/
lemma find?_name (hn : bs.Pairwise fun b c => b.name ≠ c.name) (hb : b ∈ bs) : bs.find? (·.name == b.name) = some b := by
  induction bs with
  | nil => exact absurd hb List.not_mem_nil
  | cons c bs ih =>
    obtain ⟨hc, hn⟩ := List.pairwise_cons.1 hn
    rcases List.mem_cons.1 hb with rfl | hb
    · exact List.find?_cons_of_pos (beq_self_eq_true _)
    · rw [List.find?_cons_of_neg (by simpa using hc b hb)]
      exact ih hn hb

lemma Holds.manifest (h : a.Holds w bs) (hb : b ∈ bs) :
    w.tree.bytes? (a.manifestPlace b.name) = some (Text.encode (Json.write b.manifest)) := by
  rw [h.manifests _ (h.keeps b hb).listed, find?_name h.named hb]
  rfl

/-! ### Reading -/

lemma runOn_readText_child {dir s : String} (hd : Path.Clear dir) (hn : Path.Proper n) (hslash : '/' ∉ n.toList)
    (hs : '\r' ∉ s.toList) (h : w.tree.bytes? (Path.lexical dir ++ [n]) = some (Text.encode s)) :
    runOn w (readText (Path.join dir n)) = (.ok s, w) :=
  runOn_readText hs (by rw [World.located_absolute (hd.child hn hslash).1.absolute, Tree.read_child hd hn hslash h])

/-- A manifest is read from a backup's directory as it was written there. -/
lemma runOn_readManifest (ha : Path.Clear a.root) (hn : Path.Proper n) (hslash : '/' ∉ n.toList) (hb : b.Writable)
    (h : w.tree.bytes? (a.manifestPlace n) = some (Text.encode (Json.write b.manifest))) :
    runOn w (readManifest (Path.join a.root n)) = (ofManifest (Path.join a.root n) (Json.write b.manifest), w) := by
  obtain ⟨hclear, hplace⟩ := ha.child hn hslash
  have hfeeds : '\r' ∉ (Json.write b.manifest).toList := by
    rw [Json.write, String.toList_ofList]
    exact hb.readBack.feeds 0
  rw [manifestPlace, placeOf, ← hplace] at h
  rw [readManifest, runOn_bind_ok _ (runOn_readText_child hclear (by decide) (by decide) hfeeds h), runOn_ofResult]

/-- The manifest of a backup that the archive keeps is read from the backup's directory. -/
lemma Holds.readManifest (ha : Path.Clear a.root) (h : a.Holds w bs) (hb : b ∈ bs) :
    runOn w (readManifest (Path.join a.root b.name)) = (.ok b, w) := by
  have hk := h.keeps b hb
  rw [runOn_readManifest ha hk.proper.1 hk.proper.2 hk.sound.toWritable (h.manifest hb), ofManifest_write hk.sound,
    ← hk.path]

/-- The backup whose directory has a name. -/
def stored (bs : List Backup) (n : String) : Option Backup :=
  if n.toList.head? = some '.' then none else bs.find? (·.name == n)

/-- The backups in directories of the archive are read. -/
lemma Holds.readAll (ha : Path.Clear a.root) (h : a.Holds w bs) {ns : List String}
    (hns : ∀ n ∈ ns, Path.Proper n ∧ '/' ∉ n.toList) :
    runOn w (a.readAll ns) = (.ok (ns.filterMap (stored bs)), w) := by
  induction ns with
  | nil => rfl
  | cons n ns ih =>
    obtain ⟨hn, hslash⟩ := hns n List.mem_cons_self
    have hrest := ih fun m hm => hns m (List.mem_cons_of_mem n hm)
    obtain ⟨hclear, hplace⟩ := ha.child hn hslash
    have hfile : w.tree.isFile (w.located (Path.join (Path.join a.root n) manifestName)) =
        (w.tree.bytes? (a.manifestPlace n)).isSome := by
      rw [World.located_absolute (hclear.child (n := manifestName) (by decide) (by decide)).1.absolute,
        Tree.isFile_child hclear (by decide) (by decide), hplace]
      rfl
    rw [Archive.readAll, runOn_bind_ok _ (runOn_isFile _), hfile]
    by_cases hdot : n.toList.head? = some '.'
    · have hstored : stored bs n = none := if_pos hdot
      rw [if_neg (by simp [hdot]), hrest, List.filterMap_cons_none hstored]
    · rw [h.manifests n hdot, Option.isSome_map]
      rcases hfind : bs.find? (·.name == n) with _ | b
      · have hstored : stored bs n = none := (if_neg hdot).trans hfind
        rw [hfind, if_neg (by simp), hrest, List.filterMap_cons_none hstored]
      · have hstored : stored bs n = some b := (if_neg hdot).trans hfind
        have hb := List.mem_of_find?_eq_some hfind
        obtain rfl : b.name = n := by simpa using List.find?_some hfind
        rw [hfind, if_pos (by simpa using hdot), runOn_outcome_bind, h.readManifest ha hb]
        simp only [runOn_bind_ok _ hrest, runOn_pure, List.filterMap_cons_some hstored]

/-- The backups that are read are those that the archive holds. -/
lemma Holds.perm_filterMap (h : a.Holds w bs) :
    ((w.tree.namesAt (Path.lexical a.root)).filterMap (stored bs)).Perm bs := by
  have hsome : ∀ {n b}, stored bs n = some b → b ∈ bs ∧ b.name = n := by
    intro n b hb
    unfold stored at hb
    split at hb
    · exact absurd hb nofun
    · exact ⟨List.mem_of_find?_eq_some hb, by simpa using List.find?_some hb⟩
  have hnodup : bs.Nodup := h.named.imp fun hne heq => hne (congrArg Backup.name heq)
  refine (List.perm_ext_iff_of_nodup ((Tree.nodup_namesAt _ _).filterMap fun n m b hb hb' => ?_) hnodup).2 fun b => ?_
  · exact (hsome hb).2.symm.trans (hsome hb').2
  · rw [List.mem_filterMap]
    constructor
    · rintro ⟨n, -, hb⟩
      exact (hsome hb).1
    · intro hb
      have hfile := Tree.bytes?_eq_some.1 (h.manifest hb)
      rw [manifestPlace] at hfile
      have hdir := Tree.get?_above (List.cons_ne_nil _ _) hfile
      refine ⟨b.name, Tree.mem_namesAt.2 ⟨_, hdir⟩, ?_⟩
      rw [stored, if_neg (h.keeps b hb).listed, find?_name h.named hb]

lemma before_trans (x y z : Backup) (hxy : x.before y = true) (hyz : y.before z = true) : x.before z = true := by
  simp only [Backup.before, Bool.or_eq_true, Bool.and_eq_true, decide_eq_true_eq, beq_iff_eq] at *
  omega

lemma before_total (x y : Backup) : (x.before y || y.before x) = true := by
  simp only [Backup.before, Bool.or_eq_true, Bool.and_eq_true, decide_eq_true_eq, beq_iff_eq]
  omega

/-- Backups that the archive keeps are sorted into the order of their sequence numbers. -/
lemma Holds.inOrder? (h : a.Holds w bs) {cs : List Backup} (hcs : cs.Perm bs) : Backup.inOrder? cs = some bs := by
  have hclash : ¬ (cs.any fun x => cs.any fun y => x.clash y) = true := by
    simp only [List.any_eq_true, not_exists, not_and]
    intro x hx y hy
    have hx' := (h.keeps x (hcs.mem_iff.1 hx)).sound.universal
    have hy' := (h.keeps y (hcs.mem_iff.1 hy)).sound.universal
    simp [Backup.clash, Instant.comparable, hx', hy']
  rw [Backup.inOrder?, if_neg hclash]
  refine congrArg some (List.Perm.eq_of_pairwise (fun x y hx hy hxy hyx => ?_)
    (List.pairwise_mergeSort before_trans before_total cs) ?_ ((List.mergeSort_perm cs _).trans hcs))
  · -- Both stand in the archive, so they have one sequence number only if they are one.
    have hx' : x ∈ bs := hcs.mem_iff.1 ((List.mergeSort_perm cs _).mem_iff.1 hx)
    by_contra hne
    have hapart : bs.Pairwise fun x y => x.sequence ≠ y.sequence := h.ordered.imp fun hlt => Int.ne_of_lt hlt
    have hsymm : Std.Symm fun x y : Backup => x.sequence ≠ y.sequence := ⟨fun _ _ => Ne.symm⟩
    have hseq := hapart.forall hx' hy hne
    simp only [Backup.before, Bool.or_eq_true, Bool.and_eq_true, decide_eq_true_eq, beq_iff_eq] at hxy hyx
    omega
  · exact h.ordered.imp fun hlt => by simp [Backup.before, hlt]

/-- The names in an archive that holds anything are those at its root. -/
lemma Holds.names (ha : Path.Clear a.root) (h : a.Holds w bs) :
    ∃ ns, (match w.tree.stat a.root with
      | .ok (p, .directory) => w.tree.namesAt p
      | _ => []) = ns ∧ (∀ n ∈ ns, Path.Proper n ∧ '/' ∉ n.toList) ∧ (ns.filterMap (stored bs)).Perm bs := by
  rcases bs with _ | ⟨b, bs⟩
  · have hnone : ∀ ns : List String, ns.filterMap (stored []) = [] := fun ns => by
      rw [List.filterMap_eq_nil_iff]
      intro n _
      simp [stored]
    refine ⟨_, rfl, fun n hn => ?_, by rw [hnone]⟩
    split at hn
    · rename_i p hp
      obtain ⟨e, he⟩ := Tree.mem_namesAt.1 hn
      obtain ⟨h1, h2, -⟩ := Tree.proper_of_isName (Tree.isName_of_get? he n (by simp))
      exact ⟨h1, h2⟩
    · exact absurd hn List.not_mem_nil
  · have hfile := Tree.bytes?_eq_some.1 (h.manifest (List.mem_cons_self (a := b)))
    rw [manifestPlace, placeOf, List.append_assoc] at hfile
    have hroot := Workspace.stat_root ha (Tree.get?_above (List.cons_ne_nil _ _) hfile)
    rw [hroot]
    refine ⟨_, rfl, fun n hn => ?_, h.perm_filterMap⟩
    obtain ⟨e, he⟩ := Tree.mem_namesAt.1 hn
    obtain ⟨h1, h2, -⟩ := Tree.proper_of_isName (Tree.isName_of_get? he n (by simp))
    exact ⟨h1, h2⟩

/-- **An archive lists the backups that it holds**, in the order of their creation. -/
theorem Holds.list (ha : Path.Clear a.root) (h : a.Holds w bs) : runOn w a.list = (.ok bs, w) := by
  obtain ⟨ns, hnames, hns, hperm⟩ := h.names ha
  have hlook : runOn w (look fun w => match w.tree.stat a.root with
      | .ok (p, .directory) => w.tree.namesAt p
      | _ => []) = (.ok ns, w) := congrArg (fun ns => (Except.ok ns, w)) hnames
  refine (runOn_bind_ok _ hlook).trans ?_
  rw [runOn_bind_ok _ (h.readAll ha hns), h.inOrder? hperm]
  rfl

/-! ### Finding -/

/-- The names that backups are found by. -/
lemma directory_ok {name dir : String} (h : runOn w (a.directory name) = (.ok dir, w')) :
    w' = w ∧ dir = Path.join a.root name ∧ Listed name ∧ Path.Proper name ∧ '/' ∉ name.toList := by
  unfold Archive.directory at h
  rw [runOn_ite] at h
  split at h
  · exact absurd (Prod.mk.inj h).1 nofun
  · rename_i hname
    obtain ⟨hdir, rfl⟩ := Prod.mk.inj h
    simp only [Bool.or_eq_true, String.isEmpty_iff, List.any_eq_true, beq_iff_eq, not_or, not_exists, not_and] at hname
    obtain ⟨⟨hne, hslash⟩, hdot⟩ := hname
    refine ⟨rfl, (Except.ok.inj hdir).symm, hdot, ⟨hne, ?_, ?_⟩, fun h => (hslash '/' h).1 rfl⟩
    · rintro rfl
      exact hdot rfl
    · rintro rfl
      exact hdot rfl

/-- What is found under a name is read from a manifest that is there. -/
lemma find_ok (ha : Path.Clear a.root) {name : String} (hr : runOn w (a.find name) = (.ok b, w')) :
    (w.tree.bytes? (a.manifestPlace name)).isSome ∧ Listed name ∧ Path.Proper name ∧ '/' ∉ name.toList ∧
      ∃ u, runOn w (readManifest (Path.join a.root name)) = (.ok b, u) := by
  obtain ⟨dir, u, hdir, hr⟩ := of_bind_ok hr
  obtain ⟨rfl, rfl, hdot, hproper, hslash⟩ := directory_ok hdir
  obtain ⟨hclear, hplace⟩ := ha.child hproper hslash
  obtain ⟨there, u, hthere, hr⟩ := of_bind_ok hr
  rw [runOn_isFile] at hthere
  obtain ⟨hfile, rfl⟩ := Prod.mk.inj hthere
  rw [World.located_absolute (hclear.child (n := manifestName) (by decide) (by decide)).1.absolute,
    Tree.isFile_child hclear (by decide) (by decide), hplace] at hfile
  rw [runOn_ite] at hr
  split at hr
  · rename_i ht
    obtain rfl := Except.ok.inj hfile
    exact ⟨ht, hdot, hproper, hslash, w', of_told_ok hr⟩
  · exact absurd (Prod.mk.inj hr).1 nofun

/-- What is found in an archive is one of the backups that it holds. -/
lemma Holds.find (ha : Path.Clear a.root) (h : a.Holds w bs) {name : String}
    (hr : runOn w (a.find name) = (.ok b, w')) : b ∈ bs ∧ b.name = name := by
  obtain ⟨hthere, hdot, -, -, u, hm⟩ := find_ok ha hr
  rw [h.manifests name hdot, Option.isSome_map, Option.isSome_iff_exists] at hthere
  obtain ⟨c, hc⟩ := hthere
  have hmem := List.mem_of_find?_eq_some hc
  obtain rfl : c.name = name := by simpa using List.find?_some hc
  rw [h.readManifest ha hmem] at hm
  obtain rfl := Except.ok.inj (Prod.mk.inj hm).1
  exact ⟨hmem, rfl⟩

/-- A sound backup is found under its name where its manifest lies. -/
lemma runOn_find (ha : Path.Clear a.root) (hb : b.Sound) (hpath : b.path = Path.join a.root b.name)
    (hlisted : Listed b.name) (hproper : Path.Proper b.name ∧ '/' ∉ b.name.toList) (hplain : '\\' ∉ b.name.toList)
    (h : w.tree.bytes? (a.manifestPlace b.name) = some (Text.encode (Json.write b.manifest))) :
    runOn w (a.find b.name) = (.ok b, w) := by
  obtain ⟨hclear, hplace⟩ := ha.child hproper.1 hproper.2
  have hdir : runOn w (a.directory b.name) = (.ok (Path.join a.root b.name), w) := by
    have hslash : b.name.toList.any (fun c => c == '/' || c == '\\') = false := by
      rw [List.any_eq_false]
      intro c hc
      simp only [Bool.or_eq_true, beq_iff_eq, not_or]
      exact ⟨fun h => hproper.2 (h ▸ hc), fun h => hplain (h ▸ hc)⟩
    have hlisted : (b.name.toList.head? == some '.') = false := beq_false_of_ne hlisted
    have hempty : b.name.isEmpty = false := by simpa using hproper.1.1
    rw [Archive.directory, hslash, hlisted, hempty]
    rfl
  have hread : runOn w (readManifest (Path.join a.root b.name)) = (.ok b, w) := by
    rw [runOn_readManifest ha hproper.1 hproper.2 hb.toWritable h, ofManifest_write hb, ← hpath]
  have hfile : w.tree.isFile (w.located (Path.join (Path.join a.root b.name) manifestName)) = true := by
    rw [manifestPlace, placeOf, ← hplace] at h
    rw [World.located_absolute (hclear.child (n := manifestName) (by decide) (by decide)).1.absolute,
      Tree.isFile_child hclear (by decide) (by decide), h]
    rfl
  rw [Archive.find, runOn_bind_ok _ hdir, runOn_bind_ok _ (runOn_isFile _), hfile, if_pos rfl, runOn_told, hread]
  rfl

/-- A backup that the archive holds is found under its name. -/
lemma Holds.finds (ha : Path.Clear a.root) (h : a.Holds w bs) (hb : b ∈ bs) :
    runOn w (a.find b.name) = (.ok b, w) := by
  have hk := h.keeps b hb
  exact runOn_find ha hk.sound hk.path hk.listed hk.proper hk.plain (h.manifest hb)

/-! ### Deleting -/

/-- A backup that the archive holds can be deleted, and then it holds the others. -/
lemma Holds.remove (ha : Path.Clear a.root) (h : a.Holds w (xs ++ b :: ys)) :
    ∃ t, w.tree.removeAll b.path = .ok t ∧ a.Holds { w with tree := t } (xs ++ ys) := by
  have hb : b ∈ xs ++ b :: ys := List.mem_append_right _ List.mem_cons_self
  have hk := h.keeps b hb
  have hfile := Tree.bytes?_eq_some.1 (h.manifest hb)
  have hdir : w.tree.get? (Path.lexical a.root ++ [b.name]) = some .directory :=
    Tree.get?_above (List.cons_ne_nil _ _) hfile
  have hsub : (xs ++ ys).Sublist (xs ++ b :: ys) := (List.Sublist.refl xs).append (List.sublist_cons_self b ys)
  refine ⟨_, by rw [hk.path]; exact Tree.removeAll_child ha hk.proper.1 hk.proper.2 hdir,
    fun c hc => h.keeps c (hsub.subset hc), h.ordered.sublist hsub, h.named.sublist hsub, fun n hn => ?_⟩
  have hgone : (xs ++ ys).find? (·.name == b.name) = none := by
    rw [List.find?_eq_none]
    intro c hc heq
    have happ := List.pairwise_append.1 h.named
    rcases List.mem_append.1 hc with hc | hc
    · exact happ.2.2 c hc b List.mem_cons_self (by simpa using heq)
    · exact (List.pairwise_cons.1 happ.2.1).1 c hc (by simpa using Eq.symm (by simpa using heq))
  by_cases hname : n = b.name
  · rw [hname, hgone, Tree.bytes?, Tree.get?_erase, if_pos]
    · rfl
    · exact ⟨List.prefix_append _ _, by simp [manifestPlace]⟩
  · have hne : ¬ Path.lexical a.root ++ [b.name] <+: a.manifestPlace n := by
      rw [manifestPlace, placeOf, List.append_assoc, List.prefix_append_right_inj]
      intro hpre
      exact hname (List.cons_prefix_cons.1 hpre).1.symm
    have hfind : (xs ++ b :: ys).find? (·.name == n) = (xs ++ ys).find? (·.name == n) := by
      rw [List.find?_append, List.find?_append, List.find?_cons_of_neg (by simpa using Ne.symm hname)]
    rw [← hfind, ← h.manifests n hn]
    exact Tree.bytes?_congr (by rw [Tree.get?_erase, if_neg fun hpre => hne hpre.1])

/-! ### Pruning -/

/-- Backups that the archive holds are deleted one after the other. -/
lemma Holds.deleteAll (ha : Path.Clear a.root) (h : a.Holds w (xs ++ ys)) :
    ∃ w', runOn w (deleteAll xs) = (.ok xs.length, w') ∧ a.Holds w' ys := by
  induction xs generalizing w with
  | nil => exact ⟨w, rfl, h⟩
  | cons b xs ih =>
    have hfront : a.Holds w ([] ++ b :: (xs ++ ys)) := h
    obtain ⟨t, ht, hrest⟩ := hfront.remove ha
    obtain ⟨w', hr, hheld⟩ := ih hrest
    refine ⟨w', ?_, hheld⟩
    rw [Archive.deleteAll, runOn_bind_ok _ (runOn_edit_ok ht), runOn_bind_ok _ hr]
    rfl

/-- The newest of some backups. -/
def newest (k : Nat) (bs : List Backup) : List Backup := bs.drop (bs.length - k)

/-- Pruning deletes the backups that stand before those to be kept. -/
lemma Holds.runOn_pruneKeep (ha : Path.Clear a.root) (h : a.Holds w bs) {keep : Int} (hk : 0 ≤ keep) :
    runOn w (a.pruneKeep keep) = runOn w (Archive.deleteAll (bs.take (bs.length - keep.toNat))) := by
  rw [Archive.pruneKeep, if_neg (by omega), runOn_bind_ok _ (h.list ha)]

/-- **Pruning keeps the newest backups**, as many as are asked, and says how many others there were. -/
theorem Holds.pruneKeep (ha : Path.Clear a.root) (h : a.Holds w bs) {keep : Int} {r : Except Fault Nat}
    (hr : runOn w (a.pruneKeep keep) = (r, w')) :
    (keep < 0 ∧ ∃ f, r = .error f ∧ w' = w) ∨
      0 ≤ keep ∧ r = .ok (bs.length - min keep.toNat bs.length) ∧ a.Holds w' (newest keep.toNat bs) := by
  by_cases hk : 0 ≤ keep
  · have hsplit : a.Holds w (bs.take (bs.length - keep.toNat) ++ newest keep.toNat bs) := by
      rwa [newest, List.take_append_drop]
    obtain ⟨u, hu, hheld⟩ := hsplit.deleteAll ha
    rw [h.runOn_pruneKeep ha hk, hu] at hr
    obtain ⟨hn, hw⟩ := Prod.mk.inj hr
    refine .inr ⟨hk, ?_, hw ▸ hheld⟩
    rw [← hn, List.length_take]
    exact congrArg Except.ok (by omega)
  · rw [Archive.pruneKeep, if_pos (by omega)] at hr
    obtain ⟨hf, hw⟩ := Prod.mk.inj hr
    exact .inl ⟨by omega, _, hf.symm, hw.symm⟩

/-- Whether a backup is not older than an instant. -/
def Recent (limit : Instant) (b : Backup) : Bool := limit.universal ≤ b.timestamp.universal

/-- A tree without what stood at some places directly in an archive. -/
def without (a : Archive) (t : Tree) (names : List String) : Tree := names.foldl (fun t n => t.erase (a.placeOf n)) t

/-- The tree without those of some backups that are not recent. -/
def weed (a : Archive) (limit : Instant) (bs : List Backup) (t : Tree) : Tree :=
  a.without t ((bs.filter fun b => !Recent limit b).map (·.name))

/-- Backups that the archive holds are deleted if they are old, one after the other. -/
lemma Holds.deleteOlder (ha : Path.Clear a.root) (hl : limit.offset.isSome) (h : a.Holds w (xs ++ ys)) :
    runOn w (deleteOlder limit ys) =
        (.ok (ys.countP fun b => !Recent limit b), { w with tree := a.weed limit ys w.tree }) ∧
      a.Holds { w with tree := a.weed limit ys w.tree } (xs ++ ys.filter (Recent limit)) := by
  induction ys generalizing w xs with
  | nil => exact ⟨rfl, h⟩
  | cons b ys ih =>
    have hk := h.keeps b (by simp)
    have htold : b.timestamp.comparable limit = true := by simp [Instant.comparable, hk.sound.universal, hl]
    rw [Archive.deleteOlder, if_neg (by simp [htold]), weed]
    by_cases hold : b.timestamp.universal < limit.universal
    · obtain ⟨t, ht, hrest⟩ := Holds.remove ha h
      obtain ⟨hr, hheld⟩ := ih hrest
      have hrecent : Recent limit b = false := by simp [Recent, hold]
      obtain rfl : t = w.tree.erase (a.placeOf b.name) := by
        rw [(Tree.removeAll_ok ht).2, hk.place ha]
      rw [if_pos hold, List.filter_cons_of_pos (by simp [hrecent]), List.filter_cons_of_neg (by simp [hrecent])]
      refine ⟨?_, hheld⟩
      rw [runOn_bind_ok _ (runOn_edit_ok ht), runOn_bind_ok _ hr, List.countP_cons_of_pos (by simp [hrecent])]
      rfl
    · have hrecent : Recent limit b = true := by simpa [Recent] using hold
      rw [List.append_cons] at h
      rw [if_neg hold, List.countP_cons_of_neg (by simp [hrecent]), List.filter_cons_of_neg (by simp [hrecent]),
        List.filter_cons_of_pos hrecent, List.append_cons]
      exact ih h

/-- Pruning by age deletes what is older than the limit, or nothing when the limit or an age cannot be told. -/
lemma Holds.pruneOlder (ha : Path.Clear a.root) (h : a.Holds w bs) {span : Int} {now : Option Instant}
    {r : Except Fault Nat} (hr : runOn w (a.pruneOlder span now) = (r, w')) :
    (∃ f, r = .error f ∧ w' = w) ∨
      ∃ limit, Span.before (now.getD w.now) span = .ok limit ∧
        r = .ok (bs.countP fun b => !Recent limit b) ∧ a.Holds w' (bs.filter (Recent limit)) := by
  rw [Archive.pruneOlder, runOn_bind, runOn_get] at hr
  dsimp only at hr
  rw [runOn_bind, runOn_ofResult] at hr
  rcases hl : Span.before (now.getD w.now) span with f | limit
  · rw [hl] at hr
    obtain ⟨hf, hw⟩ := Prod.mk.inj hr
    exact .inl ⟨f, hf.symm, hw.symm⟩
  · rw [hl] at hr
    dsimp only at hr
    rw [runOn_bind_ok _ (h.list ha)] at hr
    rcases hoffset : limit.offset with _ | o
    · rcases bs with _ | ⟨b, bs⟩
      · obtain ⟨hf, hw⟩ := Prod.mk.inj hr
        exact .inr ⟨limit, rfl, hf.symm, hw ▸ h⟩
      · have htold : b.timestamp.comparable limit = false := by
          simp [Instant.comparable, (h.keeps b (by simp)).sound.universal, hoffset]
        rw [Archive.deleteOlder, if_pos (by simp [htold])] at hr
        obtain ⟨hf, hw⟩ := Prod.mk.inj hr
        exact .inl ⟨_, hf.symm, hw.symm⟩
    · have hl' : limit.offset.isSome = true := by rw [hoffset]; rfl
      obtain ⟨hdelete, hheld⟩ := Holds.deleteOlder ha hl' (List.nil_append bs ▸ h)
      rw [hdelete] at hr
      obtain ⟨hf, hw⟩ := Prod.mk.inj hr
      exact .inr ⟨limit, rfl, hf.symm, hw ▸ hheld⟩

end Ratchet.Archive
