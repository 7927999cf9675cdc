import Ratchet.Proofs.Backup.Store

/-!
What a listing depends on.

When every manifest that a listing comes to is that of a sound backup, the archive lists these backups, whatever their
sequence numbers are. So a listing depends on nothing but the manifests under names that are listed: two trees that
agree on them have one listing, also when other directories stand in the archive of one of them.
-/

namespace Ratchet.Archive

open Act

variable {a : Archive} {w : World} {t t' : Tree} {n : String} {ns : List String}

/-- Whether every manifest under a listed name is that of a sound backup. -/
def Readable (a : Archive) (t : Tree) : Prop :=
  ∀ n c, Listed n → t.bytes? (a.manifestPlace n) = some c → ∃ b : Backup, b.Sound ∧ c = Text.encode (Json.write b.manifest)

/-- What is read of the bytes of a manifest in a directory. -/
def manifestOf (dir : String) (c : ByteArray) : Option Backup :=
  (Text.decode? c).bind fun s => (ofManifest dir s).toOption

lemma manifestOf_encode {b : Backup} (hb : b.Sound) (dir : String) :
    manifestOf dir (Text.encode (Json.write b.manifest)) = some { b with path := dir } := by
  rw [manifestOf, Text.decode?_encode, Option.bind_some, ofManifest_write hb]
  rfl

/-- The backup that a listing shows under a name. -/
def shown (a : Archive) (t : Tree) (n : String) : Option Backup :=
  if n.toList.head? = some '.' then none else (t.bytes? (a.manifestPlace n)).bind (manifestOf (Path.join a.root n))

/-- The backups that a listing shows, in their order. -/
def listing (a : Archive) (t : Tree) : List Backup :=
  ((t.namesAt (Path.lexical a.root)).filterMap (a.shown t)).mergeSort Backup.before

/-- What is shown in a readable archive is sound. -/
lemma Readable.sound (h : a.Readable t) {b : Backup} (hb : a.shown t n = some b) : b.timestamp.offset = some 0 := by
  unfold shown at hb
  split at hb
  · cases hb
  · rename_i hn
    obtain ⟨c, hc, hb⟩ := Option.bind_eq_some_iff.1 hb
    obtain ⟨b', hsound, rfl⟩ := h n c hn hc
    rw [manifestOf_encode hsound] at hb
    rw [← Option.some.inj hb]
    exact hsound.universal

/-- A readable archive is read name by name. -/
lemma Readable.readAll (ha : Path.Clear a.root) (h : a.Readable w.tree) (hns : ∀ n ∈ ns, Path.Proper n ∧ '/' ∉ n.toList) :
    runOn w (a.readAll ns) = (.ok (ns.filterMap (a.shown w.tree)), w) := by
  induction ns with
  | nil => rfl
  | cons n ns ih =>
    obtain ⟨⟨hn, hslash⟩, hns⟩ := List.forall_mem_cons.1 hns
    have hrest := ih hns
    obtain ⟨hclear, hplace⟩ := ha.child hn hslash
    have hfile : w.tree.isFile (w.located (Path.join (Path.join a.root n) manifestName)) =
        (w.tree.bytes? (a.manifestPlace n)).isSome := by
      rw [World.located_absolute (hclear.child (n := manifestName) (by decide) (by decide)).1.absolute,
        Tree.isFile_child hclear (by decide) (by decide), hplace]
      rfl
    rw [Archive.readAll, runOn_bind_ok _ (runOn_isFile _), hfile]
    by_cases hdot : n.toList.head? = some '.'
    · have hshown : a.shown w.tree n = none := if_pos hdot
      rw [if_neg (by simp [hdot]), hrest, List.filterMap_cons_none hshown]
    · rcases hc : w.tree.bytes? (a.manifestPlace n) with _ | c
      · have hshown : a.shown w.tree n = none := by
          rw [shown, if_neg hdot, hc]
          rfl
        rw [if_neg (by simp), hrest, List.filterMap_cons_none hshown]
      · obtain ⟨b, hb, rfl⟩ := h n c hdot hc
        have hshown : a.shown w.tree n = some { b with path := Path.join a.root n } := by
          rw [shown, if_neg hdot, hc, Option.bind_some, manifestOf_encode hb]
        have hread := runOn_readManifest ha hn hslash hb.toWritable hc
        rw [ofManifest_write hb] at hread
        rw [if_pos (by simpa using hdot), runOn_outcome_bind, hread]
        simp only [runOn_bind_ok _ hrest, runOn_pure, List.filterMap_cons_some hshown]

/-- The names that a listing goes through are those at the root of the archive. -/
lemma names_root (ha : Path.Clear a.root) (t : Tree) :
    (match t.stat a.root with
      | .ok (p, .directory) => t.namesAt p
      | _ => []) = t.namesAt (Path.lexical a.root) := by
  by_cases hroot : t.get? (Path.lexical a.root) = some .directory
  · rw [Workspace.stat_root ha hroot]
  · have hnone : t.namesAt (Path.lexical a.root) = [] := List.eq_nil_iff_forall_not_mem.2 fun n hn => by
      obtain ⟨e, he⟩ := Tree.mem_namesAt.1 hn
      exact hroot (Tree.get?_above (List.cons_ne_nil n []) he)
    rw [hnone]
    split
    · rename_i p hp
      obtain ⟨hplace, hdir⟩ := Tree.stat_eq.1 hp
      obtain rfl := Tree.place_lexical hplace
      exact absurd hdir hroot
    · rfl

/-- A readable archive lists what it shows. -/
lemma Readable.list (ha : Path.Clear a.root) (h : a.Readable w.tree) :
    runOn w a.list = (.ok (a.listing w.tree), w) := by
  have hlook : runOn w (look fun w => match w.tree.stat a.root with
      | .ok (p, .directory) => w.tree.namesAt p
      | _ => []) = (.ok (w.tree.namesAt (Path.lexical a.root)), w) :=
    congrArg (fun ns => (Except.ok ns, w)) (names_root ha w.tree)
  have hproper : ∀ n ∈ w.tree.namesAt (Path.lexical a.root), Path.Proper n ∧ '/' ∉ n.toList := by
    intro n hn
    obtain ⟨e, he⟩ := Tree.mem_namesAt.1 hn
    obtain ⟨h1, h2, -⟩ := Tree.proper_of_isName (Tree.isName_of_get? he n (by simp))
    exact ⟨h1, h2⟩
  -- All times are universal, so any two can be compared.
  have horder : Backup.inOrder? ((w.tree.namesAt (Path.lexical a.root)).filterMap (a.shown w.tree)) =
      some (a.listing w.tree) := by
    refine if_neg ?_
    simp only [List.any_eq_true, not_exists, not_and]
    intro x hx y hy
    obtain ⟨m, -, hx⟩ := List.mem_filterMap.1 hx
    obtain ⟨k, -, hy⟩ := List.mem_filterMap.1 hy
    simp [Backup.clash, Instant.comparable, h.sound hx, h.sound hy]
  refine (runOn_bind_ok _ hlook).trans ?_
  rw [runOn_bind_ok _ (h.readAll ha hproper), horder]
  rfl

/-- Trees that agree on the manifests under listed names have one listing. -/
lemma listing_congr (h : ∀ n, Listed n → t'.bytes? (a.manifestPlace n) = t.bytes? (a.manifestPlace n)) :
    a.listing t' = a.listing t := by
  have hshown : a.shown t' = a.shown t := by
    funext n
    unfold shown
    split
    · rfl
    · rename_i hn
      rw [h n hn]
  have hthere : ∀ {u : Tree} {n : String}, (a.shown u n).isSome = true → n ∈ u.namesAt (Path.lexical a.root) := by
    intro u n hn
    obtain ⟨b, hb⟩ := Option.isSome_iff_exists.1 hn
    unfold shown at hb
    split at hb
    · cases hb
    · obtain ⟨c, hc, -⟩ := Option.bind_eq_some_iff.1 hb
      exact Tree.mem_namesAt.2 ⟨_, Tree.get?_above (List.cons_ne_nil _ []) (Tree.bytes?_eq_some.1 hc)⟩
  -- Of the names in order, those that show a backup are the same.
  have hsorted : ∀ u : Tree, ((u.namesAt (Path.lexical a.root)).filter fun n => (a.shown t n).isSome).Pairwise (· ≤ ·) := by
    intro u
    refine List.Pairwise.filter _ ((List.pairwise_mergeSort (fun x y z hxy hyz => ?_) (fun x y => ?_) _).imp
      of_decide_eq_true)
    · exact decide_eq_true (le_trans (of_decide_eq_true hxy) (of_decide_eq_true hyz))
    · simpa using le_total x y
  have hnames : (t'.namesAt (Path.lexical a.root)).filter (fun n => (a.shown t n).isSome) =
      (t.namesAt (Path.lexical a.root)).filter fun n => (a.shown t n).isSome := by
    refine List.Perm.eq_of_pairwise (fun x y _ _ => le_antisymm) (hsorted t') (hsorted t) ?_
    refine (List.perm_ext_iff_of_nodup ((Tree.nodup_namesAt _ _).filter _) ((Tree.nodup_namesAt _ _).filter _)).2 fun n => ?_
    rw [List.mem_filter, List.mem_filter]
    exact ⟨fun ⟨_, hn⟩ => ⟨hthere hn, hn⟩, fun ⟨_, hn⟩ => ⟨hthere (by rwa [hshown]), hn⟩⟩
  have hfilter : ∀ ns : List String, ns.filterMap (a.shown t) =
      (ns.filter fun n => (a.shown t n).isSome).filterMap (a.shown t) := by
    intro ns
    rw [List.filterMap_filter]
    refine List.filterMap_congr fun n _ => ?_
    rcases a.shown t n with _ | b
    · rfl
    · rfl
  rw [listing, listing, hshown, hfilter, hnames, ← hfilter]

end Ratchet.Archive
