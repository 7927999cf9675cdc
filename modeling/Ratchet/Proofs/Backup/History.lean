import Ratchet.Proofs.Backup.Granted
import Ratchet.Proofs.Backup.Intact

/-!
The life of an archive.

A history of an archive is what happened to it since nothing was in it: backups were made or failed, backups were
restored and pruned, and everything outside the archive, the clock included, changed in any way. Each step keeps
`Holds`, so the archive lists at any time the backups that were made and not pruned. Sequence numbers grow from one
backup that is listed to the next, but the number of a backup that was pruned may be given again.
-/

namespace Ratchet.Archive

open Act

variable {a : Archive} {w w' : World} {ever kept bs : List Backup} {b : Backup}

/-- What came of an archive that was empty once: the backups that were ever made in it, and those of them that no pruning
deleted, both in the order of their creation. A restored backup has no files in the archive. -/
inductive History (a : Archive) : World → List Backup → List Backup → Prop
  | start {w : World} (h : ∀ p, Path.lexical a.root <+: p → w.tree.bytes? p = none) : History a w [] []
  | elsewhere {w w' : World} {ever kept : List Backup} (h : History a w ever kept)
      (hw : ∀ p, Path.lexical a.root <+: p → w'.tree.bytes? p = w.tree.bytes? p) : History a w' ever kept
  | made {w w' : World} {ever kept : List Backup} {files : List String} {description : String} {b : Backup}
      (h : History a w ever kept) (hw : Timely w) (hr : runOn w (a.create files description) = (.ok b, w')) :
      History a w' (ever ++ [b]) (kept ++ [b])
  | failed {w w' : World} {ever kept : List Backup} {files : List String} {description : String} {f : Fault}
      (h : History a w ever kept) (hr : runOn w (a.create files description) = (.error f, w')) :
      History a w' ever kept
  | restored {w w' : World} {ever kept : List Backup} {name : String} {r : Except Fault Backup}
      (h : History a w ever kept)
      (hout : ∀ b ∈ kept, b.name = name → ∀ f ∈ b.files, ¬ Path.lexical a.root <+: a.targetOf f)
      (hr : runOn w (a.restore name) = (r, w')) : History a w' ever kept
  | pruned {w w' : World} {ever kept : List Backup} {keep : Int} {n : Nat} (h : History a w ever kept)
      (hr : runOn w (a.pruneKeep keep) = (.ok n, w')) : History a w' ever (newest keep.toNat kept)
  | notPruned {w w' : World} {ever kept : List Backup} {keep : Int} {f : Fault} (h : History a w ever kept)
      (hr : runOn w (a.pruneKeep keep) = (.error f, w')) : History a w' ever kept
  | aged {w w' : World} {ever kept : List Backup} {span : Int} {now : Option Instant} {limit : Instant} {n : Nat}
      (h : History a w ever kept) (hl : Span.before (now.getD w.now) span = .ok limit)
      (hr : runOn w (a.pruneOlder span now) = (.ok n, w')) : History a w' ever (kept.filter (Recent limit))
  | notAged {w w' : World} {ever kept : List Backup} {span : Int} {now : Option Instant} {f : Fault}
      (h : History a w ever kept) (hr : runOn w (a.pruneOlder span now) = (.error f, w')) : History a w' ever kept

/-- In every history the archive holds the backups that were made and not pruned, by induction on the history. -/
theorem History.holds (ha : Path.Clear a.root) (hws : Path.Clear a.workspace) (h : History a w ever kept) :
    a.Holds w kept ∧ kept.Sublist ever ∧ ∀ c ∈ ever, 1 ≤ c.sequence := by
  induction h with
  | start h =>
    refine ⟨⟨fun _ hb => absurd hb List.not_mem_nil, .nil, .nil, fun n _ => ?_⟩, .slnil,
      fun _ hc => absurd hc List.not_mem_nil⟩
    rw [h _ (root_prefix_manifestPlace a n)]
    rfl
  | elsewhere h hw ih =>
    obtain ⟨hheld, hrest⟩ := ih
    exact ⟨hheld.congr fun n _ => hw _ (root_prefix_manifestPlace a n), hrest⟩
  | made h hw hr ih =>
    obtain ⟨hheld, hsub, hpos⟩ := ih
    obtain ⟨hheld', hseq⟩ := hheld.create ha hws hw hr
    refine ⟨hheld', hsub.append (.refl _), fun c hc => ?_⟩
    rcases List.mem_append.1 hc with hc | hc
    · exact hpos c hc
    · rw [List.mem_singleton.1 hc, hseq]
      exact hheld.lt_following.1
  | failed h hr ih => exact ⟨ih.1.create_error ha hr, ih.2⟩
  | restored h hout hr ih => exact ⟨ih.1.restore ha hws hout hr, ih.2⟩
  | pruned h hr ih =>
    obtain ⟨hheld, hsub, hpos⟩ := ih
    rcases hheld.pruneKeep ha hr with ⟨-, f, hf, -⟩ | ⟨-, -, hheld'⟩
    · exact absurd hf nofun
    · exact ⟨hheld', (List.drop_sublist _ _).trans hsub, hpos⟩
  | notPruned h hr ih =>
    rcases ih.1.pruneKeep ha hr with ⟨-, f, -, hw⟩ | ⟨-, hf, -⟩
    · rw [hw]
      exact ih
    · exact absurd hf nofun
  | aged h hl hr ih =>
    obtain ⟨hheld, hsub, hpos⟩ := ih
    rcases hheld.pruneOlder ha hr with ⟨f, hf, -⟩ | ⟨limit', hl', -, hheld'⟩
    · exact absurd hf nofun
    · obtain rfl := Except.ok.inj (hl.symm.trans hl')
      exact ⟨hheld', List.filter_sublist.trans hsub, hpos⟩
  | notAged h hr ih =>
    rcases ih.1.pruneOlder ha hr with ⟨f, -, hw⟩ | ⟨limit', -, hf, -⟩
    · rw [hw]
      exact ih
    · exact absurd hf nofun

/-- **An archive lists the backups that were made and not pruned**, in the order of their creation and with growing
sequence numbers; and pruning leaves the newest of them, as many as are asked, and says how many others there were. -/
theorem History.lists {w₀ : World} {root workspace : String}
    (h : History (Archive.at w₀.here root workspace) w ever kept) :
    runOn w (Archive.at w₀.here root workspace).list = (.ok kept, w) ∧ kept.Sublist ever ∧
      kept.Pairwise (fun b c => b.sequence < c.sequence) ∧
      ∀ k : Nat, ∃ w', runOn w ((Archive.at w₀.here root workspace).pruneKeep k) =
          (.ok (kept.length - min k kept.length), w') ∧
        runOn w' (Archive.at w₀.here root workspace).list = (.ok (newest k kept), w') ∧
        (newest k kept).length = min k kept.length ∧ newest k kept <:+ kept := by
  obtain ⟨ha, hws⟩ := clear_at w₀ root workspace
  obtain ⟨hheld, hsub, -⟩ := h.holds ha hws
  refine ⟨hheld.list ha, hsub, hheld.ordered, fun k => ?_⟩
  rcases hr : runOn w ((Archive.at w₀.here root workspace).pruneKeep k) with ⟨r, w'⟩
  rcases hheld.pruneKeep ha hr with ⟨hneg, -⟩ | ⟨-, rfl, hheld'⟩
  · omega
  · rw [Int.toNat_natCast] at hheld' ⊢
    refine ⟨w', rfl, hheld'.list ha, ?_, List.drop_suffix _ _⟩
    rw [newest, List.length_drop]
    omega

/-- **The sequence number of a new backup follows that of the newest backup that is listed**; so it is greater than all
that were ever given just when none of these is greater than every one that is listed. -/
theorem History.sequence_grows_iff {w₀ : World} {root workspace : String}
    (h : History (Archive.at w₀.here root workspace) w ever kept) (hw : Timely w) {files : List String}
    {description : String}
    (hr : runOn w ((Archive.at w₀.here root workspace).create files description) = (.ok b, w')) :
    b.sequence = following kept ∧
      ((∀ c ∈ ever, c.sequence < b.sequence) ↔ ∀ c ∈ ever, ∃ d ∈ kept, c.sequence ≤ d.sequence) := by
  obtain ⟨ha, hws⟩ := clear_at w₀ root workspace
  obtain ⟨hheld, -, hpos⟩ := h.holds ha hws
  obtain ⟨-, hseq⟩ := hheld.create ha hws hw hr
  refine ⟨hseq, fun hall c hc => ?_, fun hall c hc => ?_⟩
  · have hlt := hall c hc
    rcases List.eq_nil_or_concat' kept with rfl | ⟨cs, d, rfl⟩
    · have hone : following [] = 1 := rfl
      have := hpos c hc
      omega
    · have hlast : following (cs ++ [d]) = d.sequence + 1 := by rw [following, List.getLast?_concat]; rfl
      exact ⟨d, by simp, by omega⟩
  · obtain ⟨d, hd, hle⟩ := hall c hc
    have := hheld.lt_following.2 d hd
    omega

/-! ### An archive that was emptied -/

/-- A backup is made of no file, deleted again, and another one is made. -/
lemma emptied_steps : ∃ b w₁ w₂ c w₃, runOn workshop (shelf.create [] "") = (.ok b, w₁) ∧
    runOn w₁ (shelf.pruneKeep 0) = (.ok 1, w₂) ∧ Timely w₂ ∧ runOn w₂ (shelf.create [] "") = (.ok c, w₃) ∧
    b.sequence = 1 ∧ c.sequence = 1 := by
  obtain ⟨ha, hws⟩ := clear_shelf
  obtain ⟨t, hensure, hbare, -⟩ := ensure_workshop
  obtain ⟨b, w₁, u, hb, hbs, hprune, hheld, hbare⟩ :=
    holds_workshop.create_prune ha hws workspace_shelf timely_workshop (by decide) hensure hbare
  have hw : Timely { workshop with tree := u, draws := workshop.draws + 1 } :=
    ⟨timely_workshop.universal, timely_workshop.inCalendar⟩
  have hagain : isName (stagingMark ++ nameOf workshop.now 2) = true := by decide
  obtain ⟨c, w₂, x, hc, hcs, -⟩ := hheld.create_prune ha hws workspace_shelf hw hagain (ensure_there ha hbare.root) hbare
  exact ⟨b, w₁, _, c, w₂, hb, hprune, hw, hc, hbs, hcs⟩

/-- A workspace without an archive is the start of a history. -/
lemma history_workshop : History shelf workshop [] [] := by
  refine .start fun p hp => ?_
  have hnone : workshop.tree.get? ["w", "b"] = none := by decide
  rw [root_shelf] at hp
  exact Tree.bytes?_below_none hnone hp

/-- What is listed after a backup was made and deleted, and another one made. -/
theorem lists_emptied : ∃ w b c, History shelf w [b, c] [c] ∧ runOn w shelf.list = (.ok [c], w) ∧
    ∃ w', runOn w (shelf.pruneKeep 0) = (.ok 1, w') ∧ runOn w' shelf.list = (.ok [], w') := by
  obtain ⟨b, w₁, w₂, c, w₃, hb, hprune, hw₂, hc, -, -⟩ := emptied_steps
  have h : History shelf w₃ [b, c] [c] := ((history_workshop.made timely_workshop hb).pruned hprune).made hw₂ hc
  obtain ⟨hlist, -, -, hkeep⟩ := History.lists h
  obtain ⟨w', hr, hlist', -, -⟩ := hkeep 0
  exact ⟨w₃, b, c, h, hlist, w', hr, hlist'⟩

/-- After an archive was emptied, the next backup has a number that is not greater than that of the one deleted. -/
theorem sequence_grows_iff_emptied : ∃ w b c w', History shelf w [b] [] ∧ Timely w ∧
    runOn w (shelf.create [] "") = (.ok c, w') ∧ c.sequence = following [] ∧
    ((∀ d ∈ [b], d.sequence < c.sequence) ↔ ∀ d ∈ [b], ∃ e ∈ ([] : List Backup), d.sequence ≤ e.sequence) := by
  obtain ⟨b, w₁, w₂, c, w₃, hb, hprune, hw₂, hc, -, -⟩ := emptied_steps
  have h : History shelf w₂ [b] [] := (history_workshop.made timely_workshop hb).pruned hprune
  exact ⟨w₂, b, c, w₃, h, hw₂, hc, History.sequence_grows_iff h hw₂ hc⟩

/-- A sequence number is given twice: a backup is made, pruning keeps none, and the next backup is made. -/
theorem sequence_repeats : ∃ b w₁ w₂ c w₃, runOn workshop (shelf.create [] "") = (.ok b, w₁) ∧
    runOn w₁ (shelf.pruneKeep 0) = (.ok 1, w₂) ∧ runOn w₂ (shelf.create [] "") = (.ok c, w₃) ∧
    b.sequence = 1 ∧ c.sequence = 1 ∧ ¬ b.sequence < c.sequence := by
  obtain ⟨b, w₁, w₂, c, w₃, hb, hprune, -, hc, hbs, hcs⟩ := emptied_steps
  exact ⟨b, w₁, w₂, c, w₃, hb, hprune, hc, hbs, hcs, by rw [hbs, hcs]; decide⟩

/-! ### A backup that comes back -/

/-- The name of a world's first backup. -/
def firstName : String := "backup-20240101T000000000000Z-00000001"

/-- An archive whose workspace is the directory of its first backup. -/
def lair : Archive := Archive.at ({} : World).here "b" ("b/" ++ firstName)

lemma clear_lair : Path.Clear lair.root ∧ Path.Clear lair.workspace :=
  clear_at {} "b" ("b/" ++ firstName)

lemma holds_lair : lair.Holds {} [] := holds_nothing fun _ => rfl

lemma timely_beginning : Timely {} := ⟨rfl, by decide⟩

lemma root_lair : Path.lexical lair.root = ["b"] := by decide

lemma workspace_lair : Path.lexical lair.workspace = lair.placeOf firstName := by decide +kernel

lemma isName_firstName : isName firstName = true := by decide

lemma isName_manifestName : isName manifestName = true := by decide

/-- The workspace's file that is named like a manifest is the manifest of the first backup. -/
lemma target_lair : lair.targetOf manifestName = lair.manifestPlace firstName := by
  rw [targetOf, (Tree.name_child clear_lair.2 isName_manifestName).2.2, workspace_lair, manifestPlace]

/-- Where the first backup is not there any more, a manifest is copied to where its manifest was. -/
lemma copyOut_lair {w : World} {dir : String} {c : ByteArray} (hroot : w.tree.get? ["b"] = some .directory)
    (hnone : w.tree.get? (lair.placeOf firstName) = none) (hdir : Path.Clear dir)
    (hc : w.tree.bytes? (Path.lexical dir ++ [manifestName]) = some c) :
    ∃ t, runOn w (lair.copyOut dir [manifestName]) = (.ok (), { w with tree := t }) ∧
      t.bytes? (lair.manifestPlace firstName) = some c := by
  rw [← root_lair] at hroot
  have hne : lair.placeOf firstName ≠ [] := by simp [placeOf]
  obtain ⟨s, htarget, habs, hl⟩ := resolve_below w.here clear_lair.2 (f := manifestName) (workspace_lair ▸ hne) (by decide)
    (p := lair.placeOf firstName ++ [manifestName])
    (by rw [workspace_lair, Path.components_of_slashless (by decide)]; simp [Path.follow, manifestName])
    (workspace_lair ▸ List.prefix_append _ _)
  obtain ⟨d, hparent, hdabs, hdl⟩ := Path.parent_normal habs hne hl
  have hmake := Tree.ensureDirectories_named (Path.clear_normal hdabs) (Path.name_normal hdabs (hdl ▸ hne))
    ((Path.lexical_normal hdabs).trans hdl) isName_firstName hroot hnone
  have hmade : ∀ q, (w.tree.put (lair.placeOf firstName) .directory).get? q =
      if q = lair.placeOf firstName then some .directory else w.tree.get? q :=
    Tree.get?_put_child isName_firstName hroot hnone
  change _ = Except.ok (w.tree.put (lair.placeOf firstName) .directory) at hmake
  generalize w.tree.put (lair.placeOf firstName) .directory = t at hmake hmade
  have hthere : t.get? (lair.placeOf firstName) = some .directory := by rw [hmade, if_pos rfl]
  have hnothing : t.get? (lair.placeOf firstName ++ [manifestName]) = none := by
    rw [hmade, if_neg (by simp)]
    exact Tree.get?_below_none hnone (List.prefix_append _ _)
  have hread : t.read (Path.join dir manifestName) = .ok c := by
    refine Tree.read_child hdir (by decide) (by decide) ?_
    rw [← hc]
    refine Tree.bytes?_congr ?_
    rw [hmade, if_neg]
    intro heq
    rw [heq, Tree.bytes?_eq_some, hnone] at hc
    cases hc
  have hensure : runOn w (ensureDirectories (Path.parent (Path.normal s))) = (.ok (), { w with tree := t }) := by
    rw [runOn_ensureDirectories, hparent, World.located_absolute (Path.isAbsolute_normal hdabs)]
    exact runOn_edit_ok hmake
  have hl' := (Path.lexical_normal habs).trans hl
  have hclear := Path.clear_normal habs
  have hcopy := Tree.copy_named (Tree.zero_notMem_named hclear hl' isName_manifestName hthere)
    (Tree.place_named hclear (Path.name_normal habs (by simp [hl])) hl' isName_manifestName hthere) hthere
    (by simp [hnothing]) (Tree.stat_ne hnothing _) hread
  have hcopied := Tree.get?_put_child (e := .file c) isName_manifestName hthere hnothing
  exact ⟨_, runOn_copyOut_cons [] htarget hensure hcopy, Tree.bytes?_eq_some.2 ((hcopied _).trans (if_pos rfl))⟩

lemma wanted_lair : lair.wanted "/" [manifestName] = [manifestName] :=
  wanted_clean Path.isAbsolute_root (.of_all (by decide)) (by decide)

/-- A backup is made, and another one of its manifest. -/
lemma twice_steps : ∃ b w₁ c w₂, runOn {} (lair.create [] "") = (.ok b, w₁) ∧ Timely w₁ ∧
    runOn w₁ (lair.create [manifestName] "") = (.ok c, w₂) ∧ b.name = firstName := by
  obtain ⟨ha, hws⟩ := clear_lair
  have hW : Path.lexical lair.workspace ≠ [] := by simp [workspace_lair, placeOf]
  have hfirst : nameOf ({} : World).now 1 = firstName := by decide
  have hsecond : isName (stagingMark ++ nameOf ({} : World).now 2) = true := by decide
  have hnext : ∀ m ∈ [stagingMark ++ nameOf ({} : World).now 2, nameOf ({} : World).now 2], firstName ≠ m := by decide
  obtain ⟨t, hensure, hbare, -⟩ := ensure_new (w := {}) ha "/" "b" ⟨by decide, by decide⟩ (by decide)
    (by decide) (by decide) (by decide)
  obtain ⟨b, u, hb, hname, hout, -⟩ := holds_lair.create_granted ha hws hW (by decide) [] "" hensure
    ⟨hbare.vacant (by decide), fun _ hf => absurd hf List.not_mem_nil, fun _ hf => absurd hf List.not_mem_nil⟩
  have hname' : b.name = firstName := hname.trans hfirst
  have hw : Timely { ({} : World) with tree := u, draws := 1 } := ⟨timely_beginning.universal, timely_beginning.inCalendar⟩
  obtain ⟨hheld, hseq⟩ := holds_lair.create ha hws timely_beginning hb
  have hroot : u.get? (Path.lexical lair.root) = some .directory := by
    rw [hout _ fun h => absurd h.length_le (by simp [placeOf]), hbare.root]
  -- The second backup has another name, so the first is in the way neither of it nor of its staging directory.
  have hbeside : ∀ m, firstName ≠ m → u.get? (lair.placeOf m) = none := fun m hm => by
    rw [hout, ← List.append_nil (lair.placeOf m), hbare.empty]
    intro h
    rw [hfirst, placeOf, placeOf, List.prefix_append_right_inj] at h
    exact hm (List.cons_prefix_cons.1 h).1
  have hready : lair.Ready (nameOf ({} : World).now 2) [manifestName] u := by
    refine ⟨⟨hroot, hsecond, hbeside _ (hnext _ (by simp)), hbeside _ (hnext _ (by simp))⟩, fun f hf => ?_, fun f hf => ?_⟩
    · rw [List.mem_singleton.1 hf]
      decide
    · have hmanifest := Tree.bytes?_eq_some.1 (hheld.manifest (List.mem_append_right _ (List.mem_singleton.2 rfl)))
      rw [hname'] at hmanifest
      rw [List.mem_singleton.1 hf, workspace_lair]
      exact ⟨_, hmanifest⟩
  rw [← wanted_lair] at hready
  have hwritable : Number.isWritable (following ([] ++ [b])) = true := by
    rw [following, List.nil_append, List.getLast?_singleton, Option.map_some, Option.getD_some, hseq]
    decide
  obtain ⟨c, v, hc, -⟩ := hheld.create_granted ha hws hW hwritable [manifestName] "" (ensure_there ha hroot)
    hready
  exact ⟨b, _, c, _, hb, hw, hc, hname'⟩

/-- The second backup has archived the manifest of the first. -/
lemma archived_lair {b c : Backup} {w₁ w₂ : World} (hb : runOn {} (lair.create [] "") = (.ok b, w₁))
    (hc : runOn w₁ (lair.create [manifestName] "") = (.ok c, w₂)) (hname : b.name = firstName) :
    c.files = [manifestName] ∧
      w₂.tree.bytes? (lair.copyOf c.name manifestName) = some (Text.encode (Json.write b.manifest)) ∧
      c.digests.lookup manifestName = some (Digest.sha256 (Text.encode (Json.write b.manifest))) := by
  obtain ⟨ha, hws⟩ := clear_lair
  obtain ⟨m, hmadeb⟩ := create_ok ha hws hb
  obtain ⟨n, hmadec⟩ := create_ok ha hws hc
  have hwanted : lair.wanted w₁.here [manifestName] = [manifestName] := by
    rw [hmadeb.seen]
    exact wanted_lair
  have hfiles : c.files = [manifestName] := by rw [hmadec.said, hwanted]
  have hstaging : ∀ f ∈ c.files, stagingMark ++ c.name ∉ lair.targetOf f := by
    intro f hf hmem
    rw [hfiles, List.mem_singleton] at hf
    rw [hf, target_lair, manifestPlace, placeOf, root_lair] at hmem
    have hhead : ∀ s ∈ ["b", firstName, manifestName], s.toList.head? ≠ some '.' := by decide
    exact hhead _ hmem (by simp [stagingMark, String.toList_append])
  have hlisted : manifestName ∈ c.files := by rw [hfiles]; exact List.mem_singleton.2 rfl
  obtain ⟨bytes, hcopied, hold⟩ := (create_exact ha hws (by decide) hc hstaging manifestName hlisted).bytes
  have hbytes : Text.encode (Json.write b.manifest) = bytes := by
    have hmanifest := (holds_lair.create ha hws timely_beginning hb).1.manifest
      (List.mem_append_right _ (List.mem_singleton.2 rfl))
    rw [hname, ← target_lair, hold] at hmanifest
    exact (Option.some.inj hmanifest).symm
  rw [hbytes]
  exact ⟨hfiles, hcopied,
    hmadec.lookup (nodup_wanted lair _ _) (by rw [hwanted]; exact List.mem_singleton.2 rfl) hold⟩

/-- The first of the two backups is deleted, and the second copied out. -/
lemma returned_steps : ∃ b w₁ c w₂ w₃ w₄, runOn {} (lair.create [] "") = (.ok b, w₁) ∧
    Timely w₁ ∧ runOn w₁ (lair.create [manifestName] "") = (.ok c, w₂) ∧ runOn w₂ (deleteAll [b]) = (.ok 1, w₃) ∧
    runOn w₃ (problems c (Path.join c.path filesName) c.files) = (.ok [], w₃) ∧
    runOn w₃ (lair.copyOut (Path.join c.path filesName) c.files) = (.ok (), w₄) ∧ c.files = [manifestName] ∧
    b.name = firstName ∧ w₄.tree.bytes? (lair.manifestPlace b.name) = some (Text.encode (Json.write b.manifest)) := by
  obtain ⟨ha, hws⟩ := clear_lair
  obtain ⟨b, w₁, c, w₂, hb, hw₁, hc, hname⟩ := twice_steps
  obtain ⟨hfiles, hbytes, hdigest⟩ := archived_lair hb hc hname
  have hboth : lair.Holds w₂ ([] ++ b :: [c]) := ((holds_lair.create ha hws timely_beginning hb).1.create ha hws hw₁ hc).1
  have hne : b.name ≠ c.name := (List.pairwise_cons.1 hboth.named).1 c (List.mem_singleton.2 rfl)
  obtain ⟨n, hmade⟩ := create_ok ha hws hc
  have hnamec : c.name = nameOf w₁.now n := by rw [hmade.said]
  have hpathc : c.path = Path.join lair.root (nameOf w₁.now n) := by rw [hmade.said]
  obtain ⟨t, ht, hleft⟩ := hboth.remove ha
  have hdelete : runOn w₂ (deleteAll [b]) = (.ok 1, { w₂ with tree := t }) := by
    rw [deleteAll, runOn_bind_ok _ (runOn_edit_ok ht)]
    rfl
  have hget : ∀ p, t.get? p = if lair.placeOf b.name <+: p ∧ p ≠ [] then none else w₂.tree.get? p := fun p => by
    rw [(Tree.removeAll_ok ht).2, Tree.get?_erase, (hboth.keeps b List.mem_cons_self).place ha]
  have hroot : t.get? ["b"] = some .directory := by
    have hmanifest := Tree.bytes?_eq_some.1 (hleft.manifest (List.mem_singleton.2 rfl))
    rw [manifestPlace, placeOf, root_lair, List.append_assoc] at hmanifest
    exact Tree.get?_above (by simp) hmanifest
  have hnone : t.get? (lair.placeOf firstName) = none := by
    rw [hget, ← hname, if_pos ⟨List.prefix_refl _, by simp [placeOf]⟩]
  obtain ⟨hdir, hplace⟩ := (sites_nameOf ha w₁.now n).place.1.child (n := filesName) (by decide) (by decide)
  rw [← hpathc] at hdir hplace
  have hcopyOf : Path.lexical (Path.join (Path.join c.path filesName) manifestName) =
      Path.lexical (Path.join c.path filesName) ++ [manifestName] := (hdir.child (by decide) (by decide)).2
  have hkept : t.bytes? (Path.lexical (Path.join c.path filesName) ++ [manifestName]) =
      some (Text.encode (Json.write b.manifest)) := by
    rw [copyOf, hnamec, ← hpathc, hcopyOf] at hbytes
    refine (Tree.bytes?_congr ?_).trans hbytes
    rw [hget, if_neg]
    rintro ⟨hpre, -⟩
    rw [hplace, hpathc, (sites_nameOf ha w₁.now n).place.2, placeOf, placeOf, ← hnamec, List.append_assoc,
      List.append_assoc, List.prefix_append_right_inj] at hpre
    exact hne (List.cons_prefix_cons.1 hpre).1
  have hproblems : runOn { w₂ with tree := t } (problems c (Path.join c.path filesName) c.files) =
      (.ok [], { w₂ with tree := t }) := by
    rw [hfiles]
    refine problems_granted hdir (fun f hf => ?_) fun f hf => ?_
    · rw [List.mem_singleton.1 hf]
      decide
    · rw [List.mem_singleton.1 hf]
      exact ⟨_, Tree.bytes?_eq_some.1 hkept, hdigest⟩
  obtain ⟨u, hout, hback⟩ := copyOut_lair (w := { w₂ with tree := t }) hroot hnone hdir hkept
  rw [← hfiles] at hout
  exact ⟨b, w₁, c, w₂, _, _, hb, hw₁, hc, hdelete, hproblems, hout, hfiles, hname, by rw [hname]; exact hback⟩

/-- A backup that was pruned is listed again: a backup that archived its manifest has been restored. -/
theorem list_returned : ∃ b w₁ c w₂ w₃ w₄, runOn {} (lair.create [] "") = (.ok b, w₁) ∧
    runOn w₁ (lair.create [manifestName] "") = (.ok c, w₂) ∧ runOn w₂ (lair.pruneKeep 1) = (.ok 1, w₃) ∧
    runOn w₃ lair.list = (.ok [c], w₃) ∧ runOn w₃ (lair.restore c.name) = (.ok c, w₄) ∧
    runOn w₄ lair.list = (.ok [b, c], w₄) := by
  obtain ⟨ha, hws⟩ := clear_lair
  obtain ⟨b, w₁, c, w₂, w₃, w₄, hb, hw₁, hc, hdelete, hproblems, hcopy, hfiles, hname, hback⟩ := returned_steps
  have hb₁ := (holds_lair.create ha hws timely_beginning hb).1
  have hboth : lair.Holds w₂ ([b] ++ [c]) := (hb₁.create ha hws hw₁ hc).1
  obtain ⟨u, hu, hleft⟩ := hboth.deleteAll ha
  obtain rfl : u = w₃ := (Prod.mk.inj (hu.symm.trans hdelete)).2
  have hprune : runOn w₂ (lair.pruneKeep 1) = (.ok 1, u) := (hboth.runOn_pruneKeep ha (by decide)).trans hdelete
  have hrestore : runOn u (lair.restore c.name) = (.ok c, w₄) :=
    restore_of_steps (hleft.finds ha (List.mem_singleton.2 rfl)) hproblems hcopy
  have hspared : Spares (fun p => ¬ lair.manifestPlace b.name <+: p)
      (lair.copyOut (Path.join c.path filesName) c.files) := by
    refine spares_copyOut hws fun f hf p hp => ?_
    rw [hfiles, List.mem_singleton] at hf
    rwa [hf, target_lair, ← hname]
  have hagree := hspared u
  rw [hcopy] at hagree
  have hfinal : lair.Holds w₄ [b, c] := by
    refine ⟨hboth.keeps, hboth.ordered, hboth.named, fun m hm => ?_⟩
    by_cases hmb : b.name = m
    · rw [List.find?_cons_of_pos (by simpa using hmb), ← hmb]
      exact hback
    · rw [List.find?_cons_of_neg (by simpa using hmb), ← hleft.manifests m hm]
      refine hagree.files _ fun hpre => hmb ?_
      by_contra hm
      exact manifestPlace_beside (Ne.symm hm) ((List.prefix_append _ _).trans hpre)
  exact ⟨b, w₁, c, w₂, u, w₄, hb, hc, hprune, hleft.list ha, hrestore, hfinal.list ha⟩

end Ratchet.Archive
