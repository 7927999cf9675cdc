import Ratchet.Proofs.Backup.Confined
import Ratchet.Proofs.Backup.Intact
import Ratchet.Proofs.Backup.Listing
import Ratchet.Proofs.Tree.Faults

/-!
What making a backup comes to.

While a backup is put together nothing outside its staging directory changes, and in there everything leads to the copy
of a listed file or is the manifest. So when all of it is moved, the backup's directory holds the manifest and the copies
and nothing else; and when anything fails, discarding the staging directory leaves everything as it was.
-/

namespace Ratchet

namespace World

variable {base : Place} {w w' : World}

lemma Inside.mono {base' : Place} (h : Inside base' w w') (hb : base <+: base') : Inside base w w' := by
  refine ⟨h.here, fun p hp => (h.outside p fun hpre => hp (hb.trans hpre)).imp_right fun ⟨hup, hnew⟩ => ⟨?_, hnew⟩⟩
  exact (List.prefix_or_prefix_of_prefix hup hb).resolve_right hp

lemma Inside.bytes? (h : Inside base w w') {p : Place} (hp : ¬ base <+: p) : w'.tree.bytes? p = w.tree.bytes? p := by
  rcases h.outside p hp with hp | ⟨-, hnone, hdir⟩
  · exact Tree.bytes?_congr hp
  · rw [Tree.bytes?, Tree.bytes?, hnone, hdir]

end World

lemma Fault.kind_wrap (k : FaultKind) (words : String) (f : Fault) : (wrap k words f).kind = k := by
  unfold wrap
  split
  · rfl
  · rfl

namespace Archive

open Act

variable {a : Archive} {w w' : World} {b : Backup} {t t' : Tree} {dir : String} {files fs : List String}

/-! ### Inside the staging directory -/

/-- New directories are made on the way to a clear path and nowhere else. -/
lemma inside_newDirectories {base : Place} {path : String} (hc : Path.Clear path) (hbase : base <+: Path.lexical path)
    (h : w.tree.newDirectories path = .ok t) : World.Inside base w { w with tree := t } := by
  refine ⟨rfl, fun p hp => ?_⟩
  by_cases hpre : p <+: Path.lexical path
  · have hup := (List.prefix_or_prefix_of_prefix hpre hbase).resolve_right hp
    exact (Tree.newDirectories_grown h p).imp_right fun hnew => ⟨hup, hnew⟩
  · exact .inl (Tree.makeDirectories_above hc h hpre)

/-- What is copied in lands in the directory, by induction on the files. -/
lemma inside_copyIn (hdir : Path.Clear dir) (fs : List String) :
    Leads (World.Inside (Path.lexical dir)) (a.copyIn dir fs) := by
  induction fs with
  | nil => exact .pure _
  | cons f fs ih =>
    refine .bind .get fun w => .ofResult_bind fun source _ => .ofResult_bind fun target ht => ?_
    obtain ⟨hclear, -, hbelow⟩ := resolve_lexical w.rooted hdir ht
    obtain ⟨hparent, ns, hns, -⟩ := Path.clear_parent hclear
    refine .bind (inside_ensureDirectories hparent ⟨ns, hns.symm⟩ hbelow) fun _ => .bind (.edit fun v t hc => ?_) fun _ =>
      .bind (.of_looks (.readBytes _)) fun _ => .bind ih fun _ => .pure _
    exact ⟨rfl, fun p hp => .inl (get?_copy hclear hc fun hpre => hp (hbelow.trans hpre))⟩

/-- Copying takes nothing away. -/
lemma stays_copyIn {ds : List (String × String)} (h : runOn w (a.copyIn dir fs) = (.ok ds, w')) : Stays w.tree w'.tree := by
  induction fs generalizing w ds with
  | nil =>
    rw [← (Prod.mk.inj h).2]
    exact .refl _
  | cons f fs ih =>
    obtain ⟨source, target, v, x, c, ds', -, -, hd, hc, -, -, hrest⟩ := copyIn_cons h
    obtain ⟨c', -, -, -, -, hw⟩ := Tree.copy_ok hc
    exact (stays_grown (Tree.ensureDirectories_grown hd)).trans ((stays_set hw.free hw.after).trans (ih hrest))

/-- Whether everything in a directory leads to the copy of one of some files. -/
def Filled (dir : String) (files : List String) (t : Tree) : Prop :=
  ∀ q, t.get? (Path.lexical dir ++ q) ≠ none → q = [] ∨ ∃ f ∈ files, Path.lexical dir ++ q <+: Path.lexical (Path.join dir f)

/-- One file is copied in, and the directories that lead to it are made. -/
lemma Filled.step {f target here : String} {u v x : Tree} {source : String} {c : ByteArray}
    (hh : Path.isAbsolute here = true) (hdir : Path.Clear dir) (hf : f ∈ files) (h : Filled dir files u)
    (ht : Workspace.resolve here dir f = .ok target) (hd : u.ensureDirectories (Path.parent target) = .ok v)
    (hc : v.copy source target = .ok x) (hread : x.read target = .ok c) : Filled dir files x := by
  obtain ⟨hclear, htarget, -⟩ := resolve_lexical hh hdir ht
  obtain ⟨hparent, ns, hns, -⟩ := Path.clear_parent hclear
  obtain ⟨-, -, hafter⟩ := copy_read hc hread
  have hway : Path.lexical (Path.parent target) <+: Path.lexical (Path.join dir f) := ⟨ns, by rw [← hns, htarget]⟩
  intro q hq
  rw [hafter] at hq
  split at hq
  · rename_i heq
    exact .inr ⟨f, hf, by rw [heq, htarget]⟩
  · by_cases hpre : Path.lexical dir ++ q <+: Path.lexical (Path.parent target)
    · exact .inr ⟨f, hf, hpre.trans hway⟩
    · exact h q (by rwa [Tree.ensureDirectories_above hparent hd hpre] at hq)

/-- Files are copied in, by induction on those that are left. -/
lemma copyIn_filled {ds : List (String × String)} (hdir : Path.Clear dir) (hfs : ∀ f ∈ fs, f ∈ files)
    (h : Filled dir files w.tree) (hr : runOn w (a.copyIn dir fs) = (.ok ds, w')) : Filled dir files w'.tree := by
  induction fs generalizing w ds with
  | nil => rwa [← (Prod.mk.inj hr).2]
  | cons f fs ih =>
    obtain ⟨source, target, v, x, c, ds', -, ht, hd, hc, hread, -, hrest⟩ := copyIn_cons hr
    have hclear := (resolve_lexical w.rooted hdir ht).1
    rw [World.located_absolute hclear.absolute] at hread
    rw [World.located_absolute (Path.clear_parent hclear).1.absolute] at hd
    have hstep := h.step w.rooted hdir (hfs f List.mem_cons_self) ht hd hc hread
    exact ih (w := { w with tree := x }) (fun g hg => hfs g (List.mem_cons_of_mem f hg)) hstep hrest

/-! ### How putting together fails -/

lemma resolve_error {here root path : String} {f : Fault} (h : Workspace.resolve here root path = .error f) :
    (f.kind.isSystem || f.kind.isValue) = true := by
  unfold Workspace.resolve at h
  split at h
  · cases h
  · obtain rfl := Except.error.inj h
    rfl

/-- Copying fails with a fault that operations on files have, by induction on the files. -/
lemma copyIn_error {f : Fault} (h : runOn w (a.copyIn dir fs) = (.error f, w')) :
    (f.kind.isSystem || f.kind.isValue) = true := by
  induction fs generalizing w with
  | nil => cases (Prod.mk.inj h).1
  | cons g fs ih =>
    unfold copyIn at h
    rw [runOn_bind, runOn_get] at h
    dsimp only at h
    rcases of_bind_error h with h | ⟨source, u, -, h⟩
    · rw [runOn_ofResult] at h
      exact resolve_error (Prod.mk.inj h).1
    rcases of_bind_error h with h | ⟨target, u, -, h⟩
    · rw [runOn_ofResult] at h
      exact resolve_error (Prod.mk.inj h).1
    rcases of_bind_error h with h | ⟨_, u, -, h⟩
    · rw [runOn_ensureDirectories] at h
      exact (Tree.ensureDirectories_error (of_edit_error h).1).contained
    rcases of_bind_error h with h | ⟨_, u, -, h⟩
    · obtain ⟨path, hpath⟩ := Tree.copy_error (of_edit_error h).1
      exact hpath.contained
    rcases of_bind_error h with h | ⟨c, u, -, h⟩
    · rw [runOn_readBytes] at h
      exact (Tree.read_error (Prod.mk.inj h).1).contained
    rcases of_bind_error h with h | ⟨ds, u, -, h⟩
    · exact ih h
    · cases (Prod.mk.inj h).1

/-- A readable archive has a next place in the order of creation. -/
lemma Readable.next (ha : Path.Clear a.root) (h : a.Readable w.tree) :
    runOn w a.nextSequence = (.ok (following (a.listing w.tree)), w) := by
  rw [nextSequence, runOn_bind_ok _ (h.list ha)]
  rfl

lemma Readable.congr (h : a.Readable t)
    (ht : ∀ m, Listed m → t'.bytes? (a.manifestPlace m) = t.bytes? (a.manifestPlace m)) : a.Readable t' :=
  fun m c hm hc => h m c hm (by rwa [← ht m hm])

lemma manifestText_error {f : Fault} (h : manifestText b = .error f) : (f.kind.isSystem || f.kind.isValue) = true := by
  unfold manifestText at h
  split at h
  · cases h
  · obtain rfl := Except.error.inj h
    rfl

/-- A backup that cannot be put together leaves everything outside its staging directory as it was, and no new file in
the place of that directory; and if there is a next place in the order of creation as long as the listed manifests are
left alone, the fault is one that operations on files have. -/
lemma assemble_error_of_next (ha : Path.Clear a.root)
    (hnext : ∀ v : World, (∀ m, Listed m → v.tree.bytes? (a.manifestPlace m) = w.tree.bytes? (a.manifestPlace m)) →
      ∃ s, runOn v a.nextSequence = (.ok s, v)) {now : Instant} {n : Nat} {description : String}
    {f : Fault} (h : runOn w (a.assemble now (nameOf now n) description files) = (.error f, w')) :
    (f.kind.isSystem || f.kind.isValue) = true ∧ World.Inside (a.stagingPlace (nameOf now n)) w w' ∧
      w'.tree.bytes? (a.stagingPlace (nameOf now n)) = w.tree.bytes? (a.stagingPlace (nameOf now n)) := by
  have hsites := sites_nameOf ha now n
  have hfiles : a.stagingPlace (nameOf now n) <+:
      Path.lexical (Path.join (Path.join a.root (stagingMark ++ nameOf now n)) filesName) := by
    rw [hsites.files.2]
    exact List.prefix_append _ _
  have hnot : ∀ m, ¬ a.stagingPlace (nameOf now n) ++ [m] <+: a.stagingPlace (nameOf now n) := fun m hpre => by
    have := hpre.length_le
    rw [List.length_append, List.length_singleton] at this
    omega
  unfold assemble at h
  rcases of_bind_error h with h | ⟨⟨⟩, u, hu, h⟩
  · obtain ⟨hf, rfl⟩ := of_edit_error h
    exact ⟨(Tree.newDirectories_error hf).contained, refl w', rfl⟩
  obtain ⟨hmade, hmade'⟩ : World.Inside (a.stagingPlace (nameOf now n)) w u ∧
      u.tree.bytes? (a.stagingPlace (nameOf now n)) = w.tree.bytes? (a.stagingPlace (nameOf now n)) := by
    obtain ⟨t, ht, rfl⟩ := of_edit_ok hu
    exact ⟨inside_newDirectories hsites.files.1 hfiles ht, (Tree.newDirectories_grown ht).bytes? _⟩
  -- Copies are made in the directory of copies, which lies below the staging directory.
  have hcopied : ∀ {r : Except Fault (List (String × String))} {v : World}, runOn u (a.copyIn
      (Path.join (Path.join a.root (stagingMark ++ nameOf now n)) filesName) files) = (r, v) →
      World.Inside (a.stagingPlace (nameOf now n)) w v ∧
        v.tree.bytes? (a.stagingPlace (nameOf now n)) = w.tree.bytes? (a.stagingPlace (nameOf now n)) := by
    intro r v hv
    have hin := inside_copyIn (a := a) hsites.files.1 files u
    rw [hv] at hin
    refine ⟨Trans.trans hmade (hin.mono hfiles), (hin.bytes? ?_).trans hmade'⟩
    rw [hsites.files.2]
    exact hnot filesName
  rcases of_bind_error h with h | ⟨ds, v, hv, h⟩
  · exact ⟨copyIn_error h, hcopied h⟩
  obtain ⟨hv, hv'⟩ := hcopied hv
  obtain ⟨s, hs⟩ := hnext v fun m hm => hv.bytes? (manifestPlace_apart hm)
  rw [runOn_bind_ok _ hs] at h
  rcases of_bind_error h with h | ⟨text, x, htext, h⟩
  · rw [runOn_ofResult] at h
    obtain ⟨hf, rfl⟩ := Prod.mk.inj h
    exact ⟨manifestText_error hf, hv, hv'⟩
  rw [runOn_ofResult] at htext
  obtain ⟨-, rfl⟩ := Prod.mk.inj htext
  rcases of_bind_error h with h | ⟨⟨⟩, x, hx, h⟩
  · rw [writeText, runOn_writeBytes] at h
    obtain ⟨hf, rfl⟩ := of_edit_error h
    exact ⟨(Tree.write_error hf).contained, hv, hv'⟩
  rw [writeText, runOn_writeBytes, World.located_absolute hsites.manifest.1.absolute] at hx
  obtain ⟨t, ht, rfl⟩ := of_edit_ok hx
  have hwrote := (Tree.write_ok ht).2.after
  rw [hsites.manifest.2] at hwrote
  rcases of_bind_error h with h | ⟨⟨⟩, x, -, h⟩
  · obtain ⟨hf, rfl⟩ := of_edit_error h
    have hwritten : World.Inside (a.stagingPlace (nameOf now n)) v { v with tree := t } := by
      refine ⟨rfl, fun p hp => .inl ?_⟩
      rw [hwrote, if_neg]
      rintro rfl
      exact hp (List.prefix_append _ _)
    refine ⟨(Tree.rename_error hf).contained, Trans.trans hv hwritten, ?_⟩
    rw [← hv']
    refine Tree.bytes?_congr ?_
    rw [hwrote, if_neg]
    intro heq
    exact hnot manifestName (heq ▸ List.prefix_rfl)
  · cases (Prod.mk.inj h).1

/-- How a backup fails to be put together in a readable archive. -/
lemma assemble_error (ha : Path.Clear a.root) (hread : a.Readable w.tree) {now : Instant} {n : Nat} {description : String}
    {f : Fault} (h : runOn w (a.assemble now (nameOf now n) description files) = (.error f, w')) :
    (f.kind.isSystem || f.kind.isValue) = true ∧ World.Inside (a.stagingPlace (nameOf now n)) w w' ∧
      w'.tree.bytes? (a.stagingPlace (nameOf now n)) = w.tree.bytes? (a.stagingPlace (nameOf now n)) :=
  assemble_error_of_next ha (fun _ hv => ⟨_, (hread.congr hv).next ha⟩) h

/-! ### What is put together -/

/-- Whether nothing changed at a place, but that a directory which leads to the archive may have been made there. -/
def Kept (a : Archive) (t t' : Tree) (p : Place) : Prop :=
  t'.get? p = t.get? p ∨ p <+: Path.lexical a.root ∧ t.get? p = none ∧ t'.get? p = some .directory

lemma Kept.trans {u : Tree} {p : Place} (h : a.Kept t u p) (h' : a.Kept u t' p) : a.Kept t t' p := by
  rcases h with h | ⟨hup, hnone, hdir⟩
  · rcases h' with h' | ⟨hup', hnone', hdir'⟩
    · exact .inl (h'.trans h)
    · exact .inr ⟨hup', h ▸ hnone', hdir'⟩
  · rcases h' with h' | ⟨-, hnone', -⟩
    · exact .inr ⟨hup, hnone, h'.trans hdir⟩
    · cases hdir.symm.trans hnone'

lemma Kept.bytes? {p : Place} (h : a.Kept t t' p) : t'.bytes? p = t.bytes? p := by
  rcases h with h | ⟨-, hnone, hdir⟩
  · exact Tree.bytes?_congr h
  · rw [Tree.bytes?, Tree.bytes?, hnone, hdir]

/-- No staging directory is made on the way to the archive. -/
lemma Kept.staging {m : String} (h : a.Kept t t' (a.stagingPlace m)) (hfree : t.get? (a.stagingPlace m) = none) :
    t'.get? (a.stagingPlace m) = none := by
  rcases h with hsame | ⟨hup, -⟩
  · rw [hsame, hfree]
  · have hlen := hup.length_le
    rw [stagingPlace, List.length_append, List.length_singleton] at hlen
    omega

/-- What leads to a staging directory leads to the archive. -/
lemma kept_of_inside {m : String} {p : Place} (h : World.Inside (a.stagingPlace m) w w')
    (hp : ¬ a.stagingPlace m <+: p) : a.Kept w.tree w'.tree p := by
  refine (h.outside p hp).imp_right fun ⟨hup, hnew⟩ => ⟨?_, hnew⟩
  exact (List.prefix_concat_iff.1 hup).resolve_left fun heq => hp (heq ▸ List.prefix_rfl)

/-- Everything in the directory of a backup that was put together where no staging directory stood leads to a copy or is
the manifest, and outside it nothing is left but directories that lead to the staging directory. -/
lemma assemble_entries (ha : Path.Clear a.root) {now : Instant} {n : Nat} {description : String}
    (hfree : w.tree.get? (a.stagingPlace (nameOf now n)) = none)
    (h : runOn w (a.assemble now (nameOf now n) description files) = (.ok b, w')) :
    (∀ r, r ≠ [] → w.tree.get? (a.placeOf (nameOf now n) ++ r) = none) ∧
      w'.tree.get? (a.placeOf (nameOf now n) ++ [filesName]) = some .directory ∧
      (∀ q, w'.tree.get? (a.placeOf (nameOf now n) ++ q) ≠ none → q = [] ∨ q = [manifestName] ∨ q = [filesName] ∨
        ∃ f ∈ files, ∃ r, q = filesName :: r ∧
          a.stagingPlace (nameOf now n) ++ filesName :: r <+: a.copyOf (stagingMark ++ nameOf now n) f) ∧
      ∀ p, ¬ a.placeOf (nameOf now n) <+: p → a.Kept w.tree w'.tree p := by
  have hsites := sites_nameOf ha now n
  have hdir := hsites.files.2
  obtain ⟨t, u, t', t'', ht, hcopy, -, -, ht', ht'', -, rfl⟩ := assemble_steps hsites.manifest.1.absolute h
  have hmoved := moved ha ht' ht''
  have hbelow : a.stagingPlace (nameOf now n) <+:
      Path.lexical (Path.join (Path.join a.root (stagingMark ++ nameOf now n)) filesName) := by
    rw [hdir]
    exact List.prefix_append _ _
  have hmade := inside_newDirectories hsites.files.1 hbelow ht
  have hin := inside_copyIn (a := a) hsites.files.1 files { w with tree := t }
  rw [hcopy] at hin
  have hnew := (Tree.newDirectories_ok hsites.staging.1 (by decide) (by decide) ht).2
  rw [hsites.staging.2] at hnew
  -- Before copies are made there is the directory for them and what leads to it.
  have hlast : ∀ q, a.stagingPlace (nameOf now n) ++ q <+:
      Path.lexical (Path.join (Path.join a.root (stagingMark ++ nameOf now n)) filesName) → q = [] ∨ q = [filesName] := by
    intro q hpre
    rw [hdir, List.prefix_append_right_inj, List.prefix_cons_iff] at hpre
    exact hpre.imp_right fun ⟨r, hr, hnil⟩ => by rw [hr, List.prefix_nil.1 hnil]
  have hfirst : ∀ q, t.get? (a.stagingPlace (nameOf now n) ++ q) ≠ none → q = [] ∨ q = [filesName] := by
    intro q hq
    by_contra hne
    exact hq ((Tree.makeDirectories_above hsites.files.1 ht fun hpre => hne (hlast q hpre)).trans
      (Tree.get?_below_none hfree (List.prefix_append _ _)))
  have hfilled : Filled (Path.join (Path.join a.root (stagingMark ++ nameOf now n)) filesName) files u.tree := by
    refine copyIn_filled hsites.files.1 (fun f hf => hf) (fun q hq => .inl ?_) hcopy
    rw [hdir, List.append_assoc] at hq
    rcases hfirst _ hq with h0 | h0
    · exact absurd h0 (List.cons_ne_nil _ _)
    · exact (List.cons.inj h0).2
  have hinside : ∀ q, q ≠ [manifestName] →
      t''.get? (a.placeOf (nameOf now n) ++ q) = u.tree.get? (a.stagingPlace (nameOf now n) ++ q) := hmoved.inside
  have hall : World.Inside (a.stagingPlace (nameOf now n)) w u := Trans.trans hmade (hin.mono hbelow)
  refine ⟨fun r hr => ?_, ?_, fun q hq => ?_, fun p hp => ?_⟩
  · have hbeside : ¬ a.stagingPlace (nameOf now n) <+: a.placeOf (nameOf now n) ++ r :=
      fun ⟨r', hr'⟩ => stagingPlace_apart a _ r' r hr'
    rcases kept_of_inside hall hbeside with hsame | ⟨-, hnone, -⟩
    · rw [← hsame, hmoved.empty r hr]
    · exact hnone
  · rw [hinside _ (by decide)]
    exact (stays_copyIn hcopy).directories _ hnew
  · by_cases hm : q = [manifestName]
    · exact .inr (.inl hm)
    · rw [hinside q hm] at hq
      by_cases hf : [filesName] <+: q
      · obtain ⟨r, rfl⟩ := hf
        rw [← List.append_assoc, ← hdir] at hq
        rcases hfilled r hq with rfl | ⟨f, hf, hpre⟩
        · exact .inr (.inr (.inl rfl))
        · refine .inr (.inr (.inr ⟨f, hf, r, rfl, ?_⟩))
          rwa [hdir, List.append_assoc] at hpre
      · have hout : ¬ Path.lexical (Path.join (Path.join a.root (stagingMark ++ nameOf now n)) filesName) <+:
            a.stagingPlace (nameOf now n) ++ q := by rwa [hdir, List.prefix_append_right_inj]
        have hshort : q = [] ∨ q = [filesName] := by
          rcases hin.outside _ hout with hsame | ⟨hup, -⟩
          · exact hfirst q (by rwa [hsame] at hq)
          · exact hlast q hup
        exact hshort.imp_right fun h => .inr (.inl h)
  · by_cases hs : a.stagingPlace (nameOf now n) <+: p
    · obtain ⟨r, rfl⟩ := hs
      exact .inl ((hmoved.gone r).trans (Tree.get?_below_none hfree (List.prefix_append _ _)).symm)
    · rw [Kept, hmoved.outside p hs hp]
      exact kept_of_inside hall hs

/-- Discarding what stands below the root of the archive leaves nothing of it, unless it is a file. -/
lemma get?_discard (ha : Path.Clear a.root) {m : String} (hm : Path.Proper m) (hslash : '/' ∉ m.toList)
    (h : w.tree.bytes? (a.placeOf m) = none) (p : Place) :
    (runOn w (discard (Path.join a.root m))).2.tree.get? p = if a.placeOf m <+: p then none else w.tree.get? p := by
  change (runOn w (edit (·.removeAll (Path.join a.root m)))).2.tree.get? p = _
  rcases hg : w.tree.get? (a.placeOf m) with _ | c | _
  · have hsame : (runOn w (edit (·.removeAll (Path.join a.root m)))).2 = w := by
      rw [runOn_edit]
      rcases hr : w.tree.removeAll (Path.join a.root m) with f | t
      · rfl
      · have hdir := (Tree.removeAll_ok hr).1
        rw [(ha.child hm hslash).2] at hdir
        cases hg.symm.trans hdir
    rw [hsame]
    split
    · rename_i hpre
      exact Tree.get?_below_none hg hpre
    · rfl
  · rw [Tree.bytes?, hg] at h
    cases h
  · rw [runOn_edit_ok (Tree.removeAll_child ha hm hslash hg)]
    refine (Tree.get?_erase _ _).trans (if_congr (and_iff_left_of_imp fun hpre => ?_) rfl rfl)
    rintro rfl
    exact absurd (List.prefix_nil.1 hpre) (by simp)

/-! ### Made, or undone -/

/-- Whether a listed file is archived: seen from the directory of the archived files its copy lies where the file lies in
the workspace, and it has the bytes that the file has and whose digest is recorded. -/
structure Copied (a : Archive) (w w' : World) (b : Backup) (f : String) (r : Place) : Prop where
  source : a.targetOf f = Path.lexical a.workspace ++ r
  copy : a.copyOf b.name f = a.placeOf b.name ++ filesName :: r
  bytes : ∃ c, w.tree.bytes? (a.targetOf f) = some c ∧ w'.tree.bytes? (a.copyOf b.name f) = some c ∧
    b.digests.lookup f = some (Digest.sha256 c)

/-- What a backup of listed files leaves: its directory, which was not there or had nothing in it, with the manifest and the copies of
the listed files, each cleaned and none of them blank, and with nothing else but the directories that lead to these; and
everything outside it as it was, but for the directories that lead to the archive. -/
structure Made (a : Archive) (w : World) (files : List String) (b : Backup) (w' : World) : Prop where
  named : b.name = nameOf w.now (w.draws + 1)
  path : b.path = Path.join a.root b.name
  listed : ∀ f, f ∈ b.files ↔ f ≠ "" ∧ ∃ raw ∈ files, Path.clean w.here a.workspace raw = f
  free : w.tree.bytes? (a.placeOf b.name) = none
  empty : ∀ r, r ≠ [] → w.tree.get? (a.placeOf b.name ++ r) = none
  manifest : w'.tree.bytes? (a.manifestPlace b.name) = some (Text.encode (Json.write b.manifest))
  archive : w'.tree.get? (a.placeOf b.name ++ [filesName]) = some .directory
  copies : ∀ f ∈ b.files, ∃ r, a.Copied w w' b f r
  only : ∀ q, w'.tree.get? (a.placeOf b.name ++ q) ≠ none → q = [] ∨ q = [manifestName] ∨ q = [filesName] ∨
    ∃ f ∈ b.files, ∃ r, a.Copied w w' b f r ∧ q <+: filesName :: r
  elsewhere : ∀ p, ¬ a.placeOf b.name <+: p → a.Kept w.tree w'.tree p

/-- What a backup that fails leaves: every file as it was, and nothing new but directories that lead to the archive; no
staging directory; and the listing as it was. -/
structure Undone (a : Archive) (w w' : World) : Prop where
  files : ∀ p, w'.tree.bytes? p = w.tree.bytes? p
  entries : ∀ p, a.Kept w.tree w'.tree p
  staging : ∀ now n, w'.tree.get? (a.stagingPlace (nameOf now n)) = none
  listed : ∃ bs, runOn w a.list = (.ok bs, w) ∧ runOn w' a.list = (.ok bs, w')

/-- Whether none of the listed files leads through a directory with the name of the next staging directory. -/
def Unstaged (a : Archive) (w : World) (files : List String) : Prop :=
  ∀ f ∈ a.wanted w.here files, stagingMark ++ nameOf w.now (w.draws + 1) ∉ a.targetOf f

lemma undone (ha : Path.Clear a.root) (hread : a.Readable w.tree)
    (hfree : ∀ now n, w.tree.get? (a.stagingPlace (nameOf now n)) = none) (h : ∀ p, a.Kept w.tree w'.tree p) :
    a.Undone w w' := by
  refine ⟨fun p => (h p).bytes?, h, fun now n => (h _).staging (hfree now n), a.listing w.tree, hread.list ha, ?_⟩
  have hread' : a.Readable w'.tree := hread.congr fun m _ => (h _).bytes?
  rw [hread'.list ha, listing_congr fun m _ => (h _).bytes?]

/-- A workspace with a listed file is not the root of all files, unless the file lies in the staging directory: below that
root no relative path leads to a file. -/
lemma workspace_ne_nil (hws : Path.Clear a.workspace) {now : Instant} {n : Nat}
    {description : String} (hb : a.Assembled w.here w.tree.bytes? w' now (nameOf now n) description files b) {f : String}
    (hf : f ∈ files) (hstaging : stagingMark ++ nameOf now n ∉ a.targetOf f) : Path.lexical a.workspace ≠ [] := by
  intro htop
  have hout : ¬ a.stagingPlace (nameOf now n) <+: a.targetOf f := fun hpre =>
    hstaging (hpre.subset (by simp [stagingPlace]))
  have hthere := hb.present f hf hout
  by_cases habs : Path.isAbsolute f = true
  · have hbelow := hb.below f hf
    rw [Path.join, if_pos habs] at hbelow
    rw [targetOf, Path.join, if_pos habs] at hstaging
    exact hstaging (hbelow.subset (by simp [stagingPlace]))
  · have hrel : Path.isAbsolute f = false := Bool.eq_false_iff.2 habs
    have hnil : a.targetOf f = [] := by
      have hsome := hb.within f hf
      have hnormal : Path.absolute w.here a.workspace = Path.normal a.workspace := by
        rw [Path.absolute, Path.join, if_pos hws.absolute]
      rw [Path.within?, hnormal] at hsome
      split at hsome
      · rename_i hbelow
        have hjoin := Path.lexical_of_isBelow_top hws.absolute htop hrel hbelow
        rwa [Path.lexical_join (Path.clear_normal hws.absolute).ne_empty hrel, Path.lexical_normal hws.absolute,
          ← Path.lexical_join hws.ne_empty hrel] at hjoin
      · cases hsome
    rw [hnil, Tree.bytes?, Tree.get?_nil] at hthere
    cases hthere

/-- Making the archive ready makes directories that lead to it, or fails and changes nothing. -/
lemma ensure_cases (ha : Path.Clear a.root) {r : Except Fault Unit} (h : runOn w a.ensure = (r, w')) :
    (∃ t, r = .ok () ∧ w' = { w with tree := t } ∧ ∀ p, a.Kept w.tree t p) ∨
      ∃ f, r = .error f ∧ w' = w ∧ (f.kind = .backup ∨ f.kind = .value ∧ '\x00' ∈ a.root.toList) := by
  rw [ensure, runOn_told, runOn_ensureDirectories, World.located_absolute ha.absolute, runOn_edit] at h
  rcases ht : w.tree.ensureDirectories a.root with f | t
  · rw [ht] at h
    obtain ⟨rfl, rfl⟩ := Prod.mk.inj h
    refine .inr ⟨_, rfl, rfl, ?_⟩
    dsimp only
    rcases Tree.ensureDirectories_error ht with ⟨c, hc⟩ | ⟨hv, hz⟩
    · rw [hc]
      exact .inl (Fault.kind_wrap _ _ _)
    · rw [hv]
      exact .inr ⟨hv, hz⟩
  · rw [ht] at h
    obtain ⟨rfl, rfl⟩ := Prod.mk.inj h
    refine .inl ⟨t, rfl, rfl, fun p => ?_⟩
    by_cases hp : p <+: Path.lexical a.root
    · exact (Tree.ensureDirectories_grown ht p).imp_right fun hnew => ⟨hp, hnew⟩
    · exact .inl (Tree.ensureDirectories_above ha ht hp)

/-- A backup that was put together is made. -/
lemma made (ha : Path.Clear a.root) (hws : Path.Clear a.workspace) {t : Tree} (ht : ∀ p, a.Kept w.tree t p)
    (hfree : w.tree.get? (a.stagingPlace (nameOf w.now (w.draws + 1))) = none) (hu : a.Unstaged w files)
    {description : String} {v : World} (hv : v.tree = t)
    (h : runOn v (a.assemble w.now (nameOf w.now (w.draws + 1)) description (a.wanted w.here files)) = (.ok b, w')) :
    a.Made w files b w' := by
  have hsame : v.tree.bytes? = w.tree.bytes? := funext fun p => by rw [hv, (ht p).bytes?]
  have hfree' : v.tree.get? (a.stagingPlace (nameOf w.now (w.draws + 1))) = none := hv ▸ (ht _).staging hfree
  obtain ⟨hempty, harchive, honly, hout⟩ := assemble_entries ha hfree' h
  have hb := assemble_ok ha hws h
  have hname : b.name = nameOf w.now (w.draws + 1) := by rw [hb.said]
  have hfiles : b.files = a.wanted w.here files := by rw [hb.said]
  have hexact : ∀ f ∈ a.wanted w.here files, a.Exact w.tree.bytes? w'.tree b.name f := by
    intro f hf
    rw [hname, ← hsame]
    exact assemble_exact ha hws (workspace_ne_nil hws hb hf (hu f hf)) hu h f hf
  have hcopied : ∀ f ∈ a.wanted w.here files, ∃ r, a.Copied w w' b f r := by
    intro f hf
    obtain ⟨⟨r, hr, hr'⟩, c, hc, hold⟩ := hexact f hf
    exact ⟨r, hr, hr', c, hold, hc, hb.lookup (nodup_wanted a w.here files) hf (by rwa [hsame])⟩
  refine ⟨hname, by rw [hb.said], fun f => by rw [hfiles, mem_wanted], ?_, fun r hr => ?_, ?_, ?_, ?_, fun q hq => ?_,
    fun p hp => ?_⟩
  · have hfresh := hb.fresh []
    rwa [List.append_nil, hsame, ← hname] at hfresh
  · have hnone := hempty r hr
    rw [hv, ← hname] at hnone
    rcases ht (a.placeOf b.name ++ r) with hp | ⟨-, hp, -⟩
    · rw [← hp, hnone]
    · exact hp
  · rw [hname]
    exact hb.manifest
  · rwa [hname]
  · rwa [hfiles]
  · rw [hname] at hq
    refine (honly q hq).imp_right (Or.imp_right (Or.imp_right ?_))
    rintro ⟨f, hf, r, rfl, hpre⟩
    obtain ⟨r', hr'⟩ := hcopied f hf
    refine ⟨f, by rwa [hfiles], r', hr', ?_⟩
    obtain ⟨r'', hr'', hput, -⟩ := exists_copyOf ha hws (workspace_ne_nil hws hb hf (hu f hf)) (hu f hf)
      (workspace_prefix_targetOf hws v.rooted (hb.within f hf)) (hb.below f hf)
    obtain rfl : r'' = r' := List.append_cancel_left (hr''.symm.trans hr'.source)
    rwa [hput, List.prefix_append_right_inj] at hpre
  · rw [hname] at hp
    exact (ht p).trans (hv ▸ hout p hp)

/-- **A backup is made or undone**, in a readable archive in which no staging directory stands. -/
lemma create_outcome (ha : Path.Clear a.root) (hws : Path.Clear a.workspace) (hread : a.Readable w.tree)
    (hfree : ∀ now n, w.tree.get? (a.stagingPlace (nameOf now n)) = none) (hu : a.Unstaged w files)
    {description : String} {r : Except Fault Backup} (h : runOn w (a.create files description) = (r, w')) :
    (∃ b, r = .ok b ∧ a.Made w files b w') ∨
      ∃ f, r = .error f ∧ (f.kind = .backup ∨ f.kind = .value ∧ '\x00' ∈ a.root.toList) ∧ a.Undone w w' := by
  rcases create_cases h with ⟨f, rfl, he⟩ | ⟨u, he, n, v, rfl, rfl, hend⟩
  · rcases ensure_cases ha he with ⟨t, hok, -⟩ | ⟨g, hg, rfl, hkind⟩
    · cases hok
    · obtain rfl := Except.error.inj hg
      exact .inr ⟨f, rfl, hkind, undone ha hread hfree fun _ => .inl rfl⟩
  obtain ⟨t, -, rfl, hkept⟩ := (ensure_cases ha he).resolve_right fun ⟨_, hf, _⟩ => absurd hf nofun
  rcases hend with ⟨b, rfl, hr⟩ | ⟨f, x, hx, hfail⟩
  · exact .inl ⟨b, rfl, made ha hws hkept (hfree _ _) hu rfl hr⟩
  have hread' : a.Readable t := hread.congr fun m _ => (hkept _).bytes?
  obtain ⟨hcontained, hin, hsame⟩ := assemble_error ha hread' hx
  rcases hfail with ⟨-, hr, hw⟩ | ⟨hnot, -⟩
  · have hnone := (hkept _).staging (hfree w.now (w.draws + 1))
    obtain ⟨-, -, hmark, hslash⟩ := proper_nameOf w.now (w.draws + 1)
    have hgone : x.tree.bytes? (a.placeOf (stagingMark ++ nameOf w.now (w.draws + 1))) = none := by
      refine hsame.trans ?_
      rw [Tree.bytes?, hnone]
    refine .inr ⟨_, hr, .inl (Fault.kind_wrap _ _ _), undone ha hread hfree fun p => (hkept p).trans ?_⟩
    rw [Kept, hw, get?_discard ha hmark hslash hgone]
    split
    · rename_i hpre
      exact .inl (Tree.get?_below_none hnone hpre).symm
    · rename_i hpre
      exact kept_of_inside hin hpre
  · rw [hcontained] at hnot
    cases hnot

end Archive

end Ratchet
