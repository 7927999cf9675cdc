import Ratchet.Proofs.Backup.Restoring
import Ratchet.Proofs.Leading

/-!
How far an archive reaches.

Whatever stands in an archive, manifests of any text included, restoring a backup changes nothing outside the
workspace, and pruning only removes directories that stand directly in the archive. The files of a backup are
resolved in the workspace before they are written, and the directory of a backup that is read is the one that its
manifest was found in, not one that the manifest names.
-/

namespace Ratchet

open Act

/-- Nothing outside a directory differs between two worlds, but that directories which lead to it were made. -/
structure World.Inside (base : Place) (w w' : World) : Prop where
  here : w'.here = w.here
  outside : ∀ p, ¬ base <+: p → w'.tree.get? p = w.tree.get? p ∨
    p <+: base ∧ w.tree.get? p = none ∧ w'.tree.get? p = some .directory

instance (base : Place) : IsPreorder World (World.Inside base) where
  refl _ := ⟨rfl, fun _ _ => .inl rfl⟩
  trans u v w h h' := by
    refine ⟨h'.here.trans h.here, fun p hp => ?_⟩
    rcases h.outside p hp with hv | ⟨hbase, hu, hv⟩ <;> rcases h'.outside p hp with hw | ⟨hbase', hv', hw⟩
    · exact .inl (hw.trans hv)
    · exact .inr ⟨hbase', hv ▸ hv', hw⟩
    · exact .inr ⟨hbase, hu, hw.trans hv⟩
    · exact absurd (hv.symm.trans hv') nofun

namespace Archive

variable {a : Archive} {w w' : World} {b : Backup} {bs : List Backup} {base : Place}

/-! ### Restoring -/

/-- Making the directories that lead to something below a directory makes those that lead to it, and others inside. -/
lemma inside_ensureDirectories {path : String} {q : Place} (hc : Path.Clear path) (hpath : Path.lexical path <+: q)
    (hbase : base <+: q) : Leads (World.Inside base) (ensureDirectories path) := by
  intro w
  rw [runOn_ensureDirectories, World.located_absolute hc.absolute]
  refine Leads.edit (fun w t ht => ⟨rfl, fun p hp => ?_⟩) w
  by_cases hpre : p <+: Path.lexical path
  · have hup := (List.prefix_or_prefix_of_prefix (hpre.trans hpath) hbase).resolve_right hp
    exact (Tree.ensureDirectories_grown ht p).imp_right fun hnew => ⟨hup, hnew⟩
  · exact .inl (Tree.ensureDirectories_above hc ht hpre)

/-- What is copied out lands in the workspace, by induction on the files. -/
lemma inside_copyOut (hws : Path.Clear a.workspace) (dir : String) (fs : List String) :
    Leads (World.Inside (Path.lexical a.workspace)) (a.copyOut dir fs) := by
  induction fs with
  | nil => exact .pure _
  | cons f fs ih =>
    refine .bind .get fun w => .ofResult_bind fun target ht => ?_
    obtain ⟨hclear, -, hbelow⟩ := resolve_lexical w.rooted hws ht
    obtain ⟨hparent, ns, hns, -⟩ := Path.clear_parent hclear
    have hup : Path.lexical (Path.parent target) <+: Path.lexical target := ⟨ns, hns.symm⟩
    refine .bind (inside_ensureDirectories hparent hup hbelow) fun _ => .bind (.edit fun v t hc => ?_) fun _ => ih
    exact ⟨rfl, fun p hp => .inl (get?_copy hclear hc fun hpre => hp (hbelow.trans hpre))⟩

/-- Restoring a backup changes nothing outside the workspace, however it ends. -/
lemma inside_restore (hws : Path.Clear a.workspace) (name : String) :
    Leads (World.Inside (Path.lexical a.workspace)) (a.restore name) := by
  refine .bind (.of_looks (looks_find a name)) fun b => .bind (.of_looks (looks_verify a name)) fun wrong => .ite _ ?_ ?_
  · exact .bind (.told _ _ (inside_copyOut hws _ _)) fun _ => .pure _
  · exact .bind (.throw _) fun _ => .bind (.told _ _ (inside_copyOut hws _ _)) fun _ => .pure _

/-! ### Where listed backups are kept -/

/-- What is read of a backup is kept where the entries say. -/
lemma path_ofEntries {es : List (Datum × Datum)} {dir : String} (he : Datum.entry? "backup_path" es = some (.text dir))
    (h : Backup.ofEntries es = .ok b) : b.path = dir := by
  have hpath : Schema.field es "backup_path" "" Schema.text = .ok dir := Schema.field_ok he rfl
  obtain ⟨g₆, digests, h₆, -, rfl⟩ := Schema.Checked.of_seq_ok h
  obtain ⟨g₅, sequence, h₅, -, rfl⟩ := Schema.Checked.of_seq_ok h₆
  obtain ⟨g₄, path, h₄, hpath', rfl⟩ := Schema.Checked.of_seq_ok h₅
  obtain ⟨g₃, files, h₃, -, rfl⟩ := Schema.Checked.of_seq_ok h₄
  obtain ⟨g₂, description, h₂, -, rfl⟩ := Schema.Checked.of_seq_ok h₃
  obtain ⟨g₁, timestamp, h₁, -, rfl⟩ := Schema.Checked.of_seq_ok h₂
  obtain ⟨g₀, name, h₀, -, rfl⟩ := Schema.Checked.of_seq_ok (f := .ok Backup.mk) h₁
  obtain rfl := Schema.Checked.ok.inj h₀
  exact Schema.Checked.ok.inj (hpath'.symm.trans hpath)

/-- A backup that is read from a manifest is kept in the directory where the manifest was found. -/
lemma path_ofManifest {dir s : String} (h : ofManifest dir s = .ok b) : b.path = dir := by
  unfold ofManifest at h
  split at h
  · exact absurd h nofun
  · exact absurd h nofun
  · exact absurd h nofun
  · rename_i es hes
    rcases hb : Backup.ofEntries (Datum.putEntry (.text "backup_path") (.text dir) es) with c | issues
    · rw [hb] at h
      obtain rfl := Except.ok.inj h
      exact path_ofEntries (Datum.entry?_putEntry _ _ es) hb
    · rw [hb] at h
      exact absurd h nofun
  · exact absurd h nofun

/-- Whether a backup is kept in a directory that stands directly in an archive. -/
def Shelved (a : Archive) (b : Backup) : Prop :=
  ∃ n, Path.Proper n ∧ '/' ∉ n.toList ∧ b.path = Path.join a.root n

/-- The backups that are read in directories of an archive are kept there, by induction on the names. -/
lemma shelved_readAll {names : List String} (hn : ∀ n ∈ names, Path.Proper n ∧ '/' ∉ n.toList)
    (h : runOn w (a.readAll names) = (.ok bs, w')) : ∀ b ∈ bs, a.Shelved b := by
  induction names generalizing w w' bs with
  | nil =>
    obtain rfl := Except.ok.inj (Prod.mk.inj h).1
    exact fun b hb => absurd hb List.not_mem_nil
  | cons n names ih =>
    have hnames : ∀ m ∈ names, Path.Proper m ∧ '/' ∉ m.toList := fun m hm => hn m (List.mem_cons_of_mem n hm)
    obtain ⟨there, v, -, h⟩ := of_bind_ok h
    rw [runOn_ite] at h
    split at h
    · rw [runOn_outcome_bind] at h
      rcases hr : runOn v (readManifest (Path.join a.root n)) with ⟨f | b, x⟩
      · rw [hr] at h
        dsimp only at h
        rw [runOn_ite] at h
        split at h
        · exact ih hnames h
        · exact absurd (Prod.mk.inj h).1 nofun
      · rw [hr] at h
        obtain ⟨cs, y, hcs, hr'⟩ := of_bind_ok h
        obtain rfl := Except.ok.inj (Prod.mk.inj hr').1
        obtain ⟨s, z, -, hread⟩ := of_bind_ok hr
        rw [runOn_ofResult] at hread
        refine List.forall_mem_cons.2 ⟨⟨n, (hn n List.mem_cons_self).1, (hn n List.mem_cons_self).2, ?_⟩, ih hnames hcs⟩
        exact path_ofManifest (Prod.mk.inj hread).1
    · exact ih hnames h

/-- The names that a listing goes through are proper. -/
lemma proper_listed : ∀ n ∈ (match w.tree.stat a.root with
      | .ok (p, .directory) => w.tree.namesAt p
      | _ => []), Path.Proper n ∧ '/' ∉ n.toList := by
  intro n hn
  split at hn
  · obtain ⟨e, he⟩ := Tree.mem_namesAt.1 hn
    obtain ⟨h1, h2, -⟩ := Tree.proper_of_isName (Tree.isName_of_get? he n (by simp))
    exact ⟨h1, h2⟩
  · exact absurd hn List.not_mem_nil

/-- Every backup that is listed is kept in a directory that stands directly in the archive. -/
lemma shelved_list (h : runOn w a.list = (.ok bs, w')) : ∀ b ∈ bs, a.Shelved b := by
  unfold Archive.list at h
  obtain ⟨names, v, hnames, hrest⟩ := of_bind_ok h
  obtain ⟨cs, x, hcs, hsorted⟩ := of_bind_ok hrest
  rw [← Except.ok.inj (Prod.mk.inj hnames).1] at hcs
  have hall := shelved_readAll proper_listed hcs
  rcases ho : Backup.inOrder? cs with _ | ds
  · rw [ho] at hsorted
    cases (Prod.mk.inj hsorted).1
  · rw [ho] at hsorted
    obtain rfl := Except.ok.inj (Prod.mk.inj hsorted).1
    rw [Backup.inOrder?] at ho
    split at ho
    · cases ho
    · obtain rfl := Option.some.inj ho
      exact fun b hb => hall b (List.mem_mergeSort.1 hb)

/-! ### Pruning -/

/-- What stands in a tree without some of the places directly in an archive. -/
lemma get?_without {names : List String} {t : Tree} {p : Place} :
    (a.without t names).get? p = if ∃ n ∈ names, a.placeOf n <+: p then none else t.get? p := by
  induction names generalizing t with
  | nil => simp [without]
  | cons n names ih =>
    have hne : a.placeOf n <+: p → p ≠ [] := by
      rintro h rfl
      simp [placeOf] at h
    have hcons : a.without t (n :: names) = a.without (t.erase (a.placeOf n)) names := rfl
    rw [hcons, ih, Tree.get?_erase]
    by_cases hn : a.placeOf n <+: p
    · simp [hn, hne hn]
    · simp [hn]

lemma of_get?_without {names : List String} {t : Tree} {p : Place} {e : Entry}
    (h : (a.without t names).get? p = some e) : t.get? p = some e := by
  rw [get?_without] at h
  split at h
  · exact absurd h nofun
  · exact h

/-- Nothing differs between two worlds but that some directories directly in an archive are gone. -/
def Thinned (a : Archive) (w w' : World) : Prop :=
  ∃ names : List String, (∀ n ∈ names, w.tree.get? (a.placeOf n) = some .directory) ∧
    w' = { w with tree := a.without w.tree names }

instance (a : Archive) : IsPreorder World a.Thinned where
  refl w := ⟨[], fun _ hn => absurd hn List.not_mem_nil, rfl⟩
  trans w _ _ := by
    rintro ⟨ns, hns, rfl⟩ ⟨ms, hms, rfl⟩
    refine ⟨ns ++ ms, fun n hn => ?_, ?_⟩
    · exact (List.mem_append.1 hn).elim (hns n) fun hn => of_get?_without (hms n hn)
    · rw [without, without, without, List.foldl_append]

/-- Deleting a backup that is kept directly in the archive removes its directory. -/
lemma thinned_removeAll (ha : Path.Clear a.root) (hb : a.Shelved b) : Leads a.Thinned (edit (·.removeAll b.path)) := by
  obtain ⟨n, hn, hslash, hpath⟩ := hb
  refine .edit fun w t ht => ?_
  obtain ⟨hdir, rfl⟩ := Tree.removeAll_ok ht
  rw [hpath, (ha.child hn hslash).2] at hdir ⊢
  exact ⟨[n], fun m hm => by rwa [List.mem_singleton.1 hm], rfl⟩

lemma thinned_deleteAll (ha : Path.Clear a.root) (h : ∀ b ∈ bs, a.Shelved b) : Leads a.Thinned (deleteAll bs) := by
  induction bs with
  | nil => exact .pure _
  | cons b bs ih =>
    obtain ⟨hb, hbs⟩ := List.forall_mem_cons.1 h
    exact .bind (thinned_removeAll ha hb) fun _ => .bind (ih hbs) fun _ => .pure _

lemma thinned_deleteOlder (ha : Path.Clear a.root) (limit : Instant) (h : ∀ b ∈ bs, a.Shelved b) :
    Leads a.Thinned (deleteOlder limit bs) := by
  induction bs with
  | nil => exact .pure _
  | cons b bs ih =>
    obtain ⟨hb, hbs⟩ := List.forall_mem_cons.1 h
    exact .ite _ (.throw _) (.ite _ (.bind (thinned_removeAll ha hb) fun _ => .bind (ih hbs) fun _ => .pure _) (ih hbs))

/-- Pruning removes directories that stand directly in the archive, however it ends. -/
lemma thinned_pruneKeep (ha : Path.Clear a.root) (keep : Int) : Leads a.Thinned (a.pruneKeep keep) := by
  refine .ite _ (.throw _) (.bind_ok (.of_looks (looks_list a)) fun w bs w' hbs => ?_)
  exact thinned_deleteAll ha (fun b hb => shelved_list hbs b (List.mem_of_mem_take hb)) w'

lemma thinned_pruneOlder (ha : Path.Clear a.root) (span : Int) (now : Option Instant) :
    Leads a.Thinned (a.pruneOlder span now) := by
  refine .bind .get fun w => .ofResult_bind fun limit _ => .bind_ok (.of_looks (looks_list a)) fun v bs v' hbs => ?_
  exact thinned_deleteOlder ha limit (shelved_list hbs) v'

/-- A workspace whose archive holds a manifest that names a file outside the workspace. -/
def besieged : World where
  tree := ((workshop.tree.put ["w", "b"] .directory).put ["w", "b", "x"] .directory).put ["w", "b", "x", manifestName]
    (.file (Text.encode (Json.write (Datum.ofFields
      [("id", .text "x"), ("timestamp", .text "2024-01-01T00:00:00Z"), ("files", Datum.ofTexts ["../y"])]))))

end Archive

end Ratchet
