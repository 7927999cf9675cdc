import Ratchet.Proofs.Spared
import Ratchet.Proofs.Workspace
import Ratchet.Snapshot.Files

/-!
Snapshots in memory restore what they cover.

A checkpoint holds the bytes of every covered file. A revert removes covered files that are not held and
then writes back what is held; since a path leads to the same place in every tree, no write can undo
another, and after a revert every covered place has the bytes that it had at the checkpoint.
-/

namespace Ratchet.FileSnapshots

open Act

variable {s : FileSnapshots} {w w' : World} {held : List (String × ByteArray)} {f : String} {b : ByteArray}

/-- The place of a file that is seen from the workspace. -/
def placeOf (s : FileSnapshots) (f : String) : Place := Path.lexical (Path.join s.workspace f)

/-- Snapshots of a workspace are taken of a clear path. -/
lemma clear_ofWorkspace {here : String} (h : Path.isAbsolute here = true) (workspace : String) (excludes : List String) :
    Path.Clear (ofWorkspace here workspace excludes).workspace := by
  dsimp only [ofWorkspace]
  exact Path.clear_absolute workspace h

/-- Whether a place below the workspace is one that every snapshot covers. -/
def Covers (s : FileSnapshots) (q : Place) : Prop :=
  q ≠ [] ∧ Workspace.reaches [] q = true ∧ Snapshots.isExcluded s.excluded (Path.ofComponents q) = false

/-- What is held are the bytes of the files that count. -/
def Holds (s : FileSnapshots) (w : World) (held : List (String × ByteArray)) : Prop :=
  ∀ f b, (f, b) ∈ held ↔ f ∈ s.files w ∧ w.tree.stat (Path.join s.workspace f) = .ok (s.placeOf f, .file b)

lemma mem_files_of_covers (hr : Path.Clear s.workspace) {q : Place} (hq : s.Covers q)
    (hb : w.tree.bytes? (Path.lexical s.workspace ++ q) = some b) : Path.ofComponents q ∈ s.files w := by
  obtain ⟨hne, hreach, hex⟩ := hq
  have hw : Path.ofComponents q ∈ Workspace.files w.tree [] s.workspace :=
    (Workspace.mem_files hr).2 ⟨q, hne, hreach, ⟨b, Tree.bytes?_eq_some.1 hb⟩, rfl⟩
  rw [files, Snapshots.ascending, List.mem_eraseDups, List.mem_mergeSort, List.mem_append, List.mem_filter]
  exact .inl ⟨hw, by rw [hex]; rfl⟩

lemma stat_of_bytes? (hr : Path.Clear s.workspace) {q : Place} (hq : q ≠ [])
    (hb : w.tree.bytes? (Path.lexical s.workspace ++ q) = some b) :
    s.placeOf (Path.ofComponents q) = Path.lexical s.workspace ++ q ∧
      w.tree.stat (Path.join s.workspace (Path.ofComponents q)) =
        .ok (s.placeOf (Path.ofComponents q), .file b) := by
  have hg := Tree.bytes?_eq_some.1 hb
  have hp : s.placeOf (Path.ofComponents q) = Path.lexical s.workspace ++ q :=
    (hr.join hq (Workspace.names_of_get? hg)).2
  exact ⟨hp, by rw [hp]; exact Workspace.stat_join hr hq hg⟩

/-! ### Holding -/

lemma readAll_ok (hr : Path.isAbsolute s.workspace = true) {fs : List String}
    (h : runOn w (s.readAll fs) = (.ok held, w')) :
    w' = w ∧ ∀ f b, (f, b) ∈ held ↔
      f ∈ fs ∧ w.tree.stat (Path.join s.workspace f) = .ok (s.placeOf f, .file b) := by
  induction fs generalizing held w' with
  | nil =>
    obtain ⟨hv, rfl⟩ := Prod.mk.inj h
    obtain rfl := Except.ok.inj hv
    exact ⟨rfl, fun f b => by simp⟩
  | cons g gs ih =>
    have hloc : w.located (Path.join s.workspace g) = Path.join s.workspace g :=
      World.located_absolute (Path.isAbsolute_join g hr)
    simp only [readAll, runOn_bind, runOn_isFile, hloc] at h
    by_cases hf : w.tree.isFile (Path.join s.workspace g) = true
    · obtain ⟨p, c, hs⟩ := Tree.isFile_iff.1 hf
      obtain rfl := Tree.place_lexical (Tree.stat_eq.1 hs).1
      rw [if_pos hf] at h
      obtain ⟨c', v, hb, h⟩ := of_bind_ok h
      rw [runOn_readBytes, hloc] at hb
      obtain ⟨hread, rfl⟩ := Prod.mk.inj hb
      obtain ⟨rest, u, hrest, h⟩ := of_bind_ok h
      obtain ⟨hv, rfl⟩ := Prod.mk.inj h
      obtain rfl := Except.ok.inj hv
      obtain ⟨rfl, hmem⟩ := ih hrest
      obtain ⟨-, p', hs'⟩ := Tree.read_eq_ok.1 hread
      obtain ⟨-, hc⟩ := Prod.mk.inj (Except.ok.inj (hs.symm.trans hs'))
      obtain rfl := Entry.file.inj hc
      refine ⟨rfl, fun f b => ?_⟩
      rw [List.mem_cons, hmem, List.mem_cons]
      constructor
      · rintro (hfb | ⟨hfs, hst⟩)
        · obtain ⟨rfl, rfl⟩ := Prod.mk.inj hfb
          exact ⟨.inl rfl, hs⟩
        · exact ⟨.inr hfs, hst⟩
      · rintro ⟨rfl | hfs, hst⟩
        · obtain ⟨-, hbc⟩ := Prod.mk.inj (Except.ok.inj (hs.symm.trans hst))
          exact .inl (by rw [Entry.file.inj hbc])
        · exact .inr ⟨hfs, hst⟩
    · simp only [if_neg hf] at h
      obtain ⟨rfl, hmem⟩ := ih h
      refine ⟨rfl, fun f b => ?_⟩
      rw [hmem, List.mem_cons]
      constructor
      · rintro ⟨hfs, hst⟩
        exact ⟨.inr hfs, hst⟩
      · rintro ⟨rfl | hfs, hst⟩
        · exact absurd (Tree.isFile_iff.2 ⟨_, _, hst⟩) hf
        · exact ⟨hfs, hst⟩

lemma spares_readAll {P : Place → Prop} (s : FileSnapshots) (fs : List String) : Act.Spares P (s.readAll fs) := by
  induction fs with
  | nil => exact .pure _
  | cons f fs ih =>
    refine .bind (.isFile _) fun there => .ite _ ?_ ih
    exact .bind (.readBytes _) fun _ => .bind ih fun _ => .pure _

/-- Providers for the same workspace that exclude the same paths. -/
def Same (s s' : FileSnapshots) : Prop := s'.workspace = s.workspace ∧ s'.excluded = s.excluded

lemma Same.trans {s' s'' : FileSnapshots} (h : Same s s') (h' : Same s' s'') : Same s s'' :=
  ⟨h'.1.trans h.1, h'.2.trans h.2⟩

lemma Same.refl (s : FileSnapshots) : Same s s := ⟨rfl, rfl⟩

/-- What a checkpoint leaves of the provider, however it ends: the files that it was given are named. -/
lemma checkpoint_named {label : String} {named : List String} {r : Except Fault Unit} {q : FileSnapshots × World}
    (h : runOn (s, w) (checkpoint label named) = (r, q)) :
    Same s q.1 ∧ q.1.named = Snapshots.namedIn w.here s.workspace s.excluded named := by
  simp only [checkpoint, runOn_bind, runOn_get, runOn_keep, runOn_told, runOn_beside] at h
  set u : FileSnapshots := { s with named := Snapshots.namedIn w.here s.workspace s.excluded named } with hu
  rcases hread : runOn w (u.readAll (u.files w)) with ⟨f | held, w'⟩
  · rw [hread] at h
    obtain ⟨-, rfl⟩ := Prod.mk.inj h
    exact ⟨⟨rfl, rfl⟩, rfl⟩
  · rw [hread] at h
    obtain ⟨-, rfl⟩ := Prod.mk.inj h
    exact ⟨⟨rfl, rfl⟩, rfl⟩

/-- A checkpoint looks at the tree and holds what it covers. -/
lemma checkpoint_cases (hr : Path.isAbsolute s.workspace = true) {label : String} {named : List String}
    {r : Except Fault Unit} {q : FileSnapshots × World} (h : runOn (s, w) (checkpoint label named) = (r, q)) :
    (∃ f, r = .error f ∧ Same s q.1 ∧ World.Agree (fun _ => True) w q.2) ∨
      ∃ held, r = .ok () ∧ q.2 = w ∧ Same s q.1 ∧ q.1.held = some held ∧ q.1.Holds w held := by
  simp only [checkpoint, runOn_bind, runOn_get, runOn_keep, runOn_told, runOn_beside] at h
  set u : FileSnapshots := { s with named := Snapshots.namedIn w.here s.workspace s.excluded named } with hu
  rcases hread : runOn w (u.readAll (u.files w)) with ⟨f | held, w'⟩
  · have hag := spares_readAll (P := fun _ => True) u (u.files w) w
    rw [hread] at h hag
    obtain ⟨rfl, rfl⟩ := Prod.mk.inj h
    exact .inl ⟨_, rfl, ⟨rfl, rfl⟩, hag⟩
  · rw [hread] at h
    obtain ⟨rfl, rfl⟩ := Prod.mk.inj h
    have hu' : Path.isAbsolute u.workspace = true := hr
    obtain ⟨rfl, hmem⟩ := readAll_ok hu' hread
    exact .inr ⟨held, rfl, rfl, ⟨rfl, rfl⟩, rfl, hmem⟩

/-! ### Reverting -/

/-- What is left after files were removed. -/
def Shrunk (w w' : World) : Prop :=
  w'.here = w.here ∧ ∀ p, w'.tree.get? p = w.tree.get? p ∨ w'.tree.get? p = none

lemma Shrunk.bytes? {p : Place} (h : Shrunk w w') (hb : w'.tree.bytes? p = some b) : w.tree.bytes? p = some b := by
  rw [Tree.bytes?_eq_some] at hb ⊢
  rcases h.2 p with hp | hp
  · rw [← hp, hb]
  · exact absurd (hb.symm.trans hp) nofun

/-- One path that is not held is cleared. -/
lemma remove_step {path : String} {u : World}
    (h : runOn w (edit (·.remove path)) = (.ok (), u)) :
    Shrunk w u ∧ u.tree.get? (Path.lexical path) = none := by
  obtain ⟨t, ht, rfl⟩ := of_edit_ok h
  obtain ⟨-, hafter⟩ := Tree.remove_ok ht
  refine ⟨⟨rfl, fun p => ?_⟩, by rw [hafter, if_pos rfl]⟩
  rw [hafter]
  split
  · exact .inr rfl
  · exact .inl rfl

lemma Shrunk.trans {w'' : World} (h : Shrunk w w') (h' : Shrunk w' w'') : Shrunk w w'' := by
  refine ⟨h'.1.trans h.1, fun p => ?_⟩
  rcases h'.2 p with hp | hp
  · rw [hp]
    exact h.2 p
  · exact .inr hp

/-- Covered files that are left were held, by induction on the files gone through. -/
lemma removeNew_ok (hr : Path.Clear s.workspace) {fs : List String}
    (h : runOn w (s.removeNew held fs) = (.ok (), w')) :
    Shrunk w w' ∧ ∀ q, q ≠ [] → Path.ofComponents q ∈ fs → ∀ b,
      w'.tree.bytes? (Path.lexical s.workspace ++ q) = some b → ∃ c, (Path.ofComponents q, c) ∈ held := by
  induction fs generalizing w with
  | nil =>
    obtain ⟨-, rfl⟩ := Prod.mk.inj h
    exact ⟨⟨rfl, fun p => .inl rfl⟩, fun q _ hq => absurd hq List.not_mem_nil⟩
  | cons f fs ih =>
    have hloc : w.located (Path.join s.workspace f) = Path.join s.workspace f :=
      World.located_absolute (Path.isAbsolute_join f hr.absolute)
    simp only [removeNew, runOn_bind, runOn_isFile, hloc] at h
    have hstep : ∃ u, Shrunk w u ∧ runOn u (s.removeNew held fs) = (.ok (), w') ∧
        (held.lookup f = none → ∀ b, w.tree.stat (Path.join s.workspace f) = .ok (s.placeOf f, .file b) →
          u.tree.get? (s.placeOf f) = none) := by
      by_cases hc : ((held.lookup f).isNone && w.tree.isFile (Path.join s.workspace f)) = true
      · rw [if_pos hc] at h
        obtain ⟨_, u, he, h⟩ := of_bind_ok h
        obtain ⟨hsh, hnone⟩ := remove_step he
        exact ⟨u, hsh, h, fun _ _ _ => hnone⟩
      · rw [if_neg hc] at h
        refine ⟨w, ⟨rfl, fun p => .inl rfl⟩, h, fun hl b hst => absurd ?_ hc⟩
        rw [hl, Tree.isFile_iff.2 ⟨_, b, hst⟩]
        rfl
    obtain ⟨u, hsh, hrest, hgone⟩ := hstep
    obtain ⟨hsh', hcov⟩ := ih hrest
    refine ⟨hsh.trans hsh', fun q hq hmem b hb => ?_⟩
    rcases List.mem_cons.1 hmem with rfl | hmem
    · rcases hl : held.lookup (Path.ofComponents q) with _ | c
      · have hu := hsh'.bytes? hb
        obtain ⟨hp, hst⟩ := stat_of_bytes? hr hq (hsh.bytes? hu)
        rw [← hp, Tree.bytes?_eq_some, hgone hl b hst] at hu
        exact absurd hu nofun
      · obtain ⟨l₁, l₂, rfl, -⟩ := List.lookup_eq_some_iff.1 hl
        exact ⟨c, by simp⟩
    · exact hcov q hq hmem b hb

/-- A file that is written with all that leads to it has its bytes, and no other file has changed. -/
lemma rewrite_ok {dir path : String} {k : Unit → Act Unit} (hp : Path.isAbsolute path = true)
    (h : runOn w (do ensureDirectories dir; k (← writeBytes path b)) = (.ok (), w')) :
    ∃ u, runOn u (k ()) = (.ok (), w') ∧ u.here = w.here ∧ u.tree.bytes? (Path.lexical path) = some b ∧
      ∀ p, p ≠ Path.lexical path → u.tree.bytes? p = w.tree.bytes? p := by
  obtain ⟨_, v, hd, h⟩ := of_bind_ok h
  obtain ⟨_, u, hw, h⟩ := of_bind_ok h
  rw [runOn_ensureDirectories] at hd
  obtain ⟨t, ht, rfl⟩ := of_edit_ok hd
  rw [runOn_writeBytes, World.located_absolute hp] at hw
  obtain ⟨t', ht', rfl⟩ := of_edit_ok hw
  have hafter := (Tree.write_ok ht').2.after
  refine ⟨_, h, rfl, Tree.bytes?_eq_some.2 (by rw [hafter, if_pos rfl]), fun p hp => ?_⟩
  rw [← (Tree.ensureDirectories_grown ht).bytes? p]
  exact Tree.bytes?_congr (by rw [hafter, if_neg hp])

/-- One held file is written back unless it is as it was. -/
lemma writeBack_cons (hr : Path.isAbsolute s.workspace = true)
    (h : runOn w (s.writeBack ((f, b) :: held)) = (.ok (), w')) :
    ∃ u, runOn u (s.writeBack held) = (.ok (), w') ∧ u.here = w.here ∧
      u.tree.bytes? (s.placeOf f) = some b ∧ ∀ p, p ≠ s.placeOf f → u.tree.bytes? p = w.tree.bytes? p := by
  have hp : Path.isAbsolute (Path.join s.workspace f) = true := Path.isAbsolute_join f hr
  simp only [writeBack, runOn_bind, runOn_look] at h
  split at h
  · rename_i p now hs
    split at h
    · rename_i hsame
      obtain ⟨hp, hg⟩ := Tree.stat_eq.1 hs
      obtain rfl := Tree.place_lexical hp
      obtain rfl := eq_of_beq hsame
      exact ⟨w, h, rfl, Tree.bytes?_eq_some.2 hg, fun _ _ => rfl⟩
    · exact rewrite_ok hp h
  · exact rewrite_ok hp h

/-- What is held is written back, by induction on it: no write undoes another. -/
lemma writeBack_ok (hr : Path.isAbsolute s.workspace = true)
    (hone : ∀ f b f' b', (f, b) ∈ held → (f', b') ∈ held → s.placeOf f = s.placeOf f' → b = b')
    (h : runOn w (s.writeBack held) = (.ok (), w')) :
    w'.here = w.here ∧ (∀ f b, (f, b) ∈ held → w'.tree.bytes? (s.placeOf f) = some b) ∧
      ∀ p, (∀ f b, (f, b) ∈ held → p ≠ s.placeOf f) → w'.tree.bytes? p = w.tree.bytes? p := by
  induction held generalizing w with
  | nil =>
    obtain ⟨-, rfl⟩ := Prod.mk.inj h
    exact ⟨rfl, fun f b hfb => absurd hfb List.not_mem_nil, fun _ _ => rfl⟩
  | cons x held ih =>
    obtain ⟨f, b⟩ := x
    obtain ⟨u, hrest, hhere, hb, hother⟩ := writeBack_cons hr h
    obtain ⟨hhere', hheld, hfree⟩ := ih (fun f b f' b' hf hf' =>
      hone f b f' b' (List.mem_cons_of_mem _ hf) (List.mem_cons_of_mem _ hf')) hrest
    refine ⟨hhere'.trans hhere, fun g c hgc => ?_, fun p hp => ?_⟩
    · rcases List.mem_cons.1 hgc with hgc | hgc
      · obtain ⟨rfl, rfl⟩ := Prod.mk.inj hgc
        by_cases hagain : ∃ g' c', (g', c') ∈ held ∧ s.placeOf g = s.placeOf g'
        · obtain ⟨g', c', hmem, hplace⟩ := hagain
          rw [hplace, hheld g' c' hmem,
            hone g c g' c' List.mem_cons_self (List.mem_cons_of_mem _ hmem) hplace]
        · rw [hfree _ fun g' c' hmem hplace => hagain ⟨g', c', hmem, hplace⟩, hb]
      · exact hheld g c hgc
    · rw [hfree p fun g c hgc => hp g c (List.mem_cons_of_mem _ hgc), hother p (hp f b List.mem_cons_self)]

/-- A revert ends well and forgets the checkpoint, or it fails somewhere and the provider stays as it was. -/
lemma revert_cases {r : Except Fault Unit} {q : FileSnapshots × World} (h : runOn (s, w) revert = (r, q)) :
    ((∃ f, r = .error f) ∧ q = (s, w) ∧ s.held = none) ∨
      ∃ held u, s.held = some held ∧ ((∃ f, r = .error f ∧ q.1 = s ∧
          ((∃ g, runOn w (s.removeNew held (s.files w)) = (.error g, q.2)) ∨
            runOn w (s.removeNew held (s.files w)) = (.ok (), u) ∧ ∃ g, runOn u (s.writeBack held) = (.error g, q.2))) ∨
        (r = .ok () ∧ q.1 = s.forget ∧ runOn w (s.removeNew held (s.files w)) = (.ok (), u) ∧
          runOn u (s.writeBack held) = (.ok (), q.2))) := by
  simp only [revert, runOn_bind, runOn_get] at h
  rcases hs : s.held with _ | held
  · rw [hs] at h
    obtain ⟨rfl, rfl⟩ := Prod.mk.inj h
    exact .inl ⟨⟨_, rfl⟩, rfl, rfl⟩
  · rw [hs] at h
    simp only [runOn_bind, runOn_told, runOn_beside] at h
    rcases hrem : runOn w (s.removeNew held (s.files w)) with ⟨g | _, u⟩
    · rw [hrem] at h
      dsimp only at h
      obtain ⟨rfl, rfl⟩ := Prod.mk.inj h
      exact .inr ⟨held, u, rfl, .inl ⟨_, rfl, rfl, .inl ⟨g, hrem⟩⟩⟩
    · rw [hrem] at h
      simp only [runOn_beside] at h
      rcases hwrite : runOn u (s.writeBack held) with ⟨g | _, u'⟩
      · rw [hwrite] at h
        obtain ⟨rfl, rfl⟩ := Prod.mk.inj h
        exact .inr ⟨held, u, rfl, .inl ⟨_, rfl, rfl, .inr ⟨hrem, g, hwrite⟩⟩⟩
      · rw [hwrite] at h
        obtain ⟨rfl, rfl⟩ := Prod.mk.inj h
        exact .inr ⟨held, u, rfl, .inr ⟨rfl, rfl, hrem, hwrite⟩⟩

lemma revert_ok {q : FileSnapshots × World} (h : runOn (s, w) revert = (.ok (), q)) :
    ∃ held u, s.held = some held ∧ runOn w (s.removeNew held (s.files w)) = (.ok (), u) ∧
      runOn u (s.writeBack held) = (.ok (), q.2) ∧ q.1 = s.forget := by
  obtain ⟨⟨_, hr⟩, -⟩ | ⟨held, u, hs, ⟨_, hr, -⟩ | ⟨-, hq, hrem, hwrite⟩⟩ := revert_cases h
  · exact absurd hr nofun
  · exact absurd hr nofun
  · exact ⟨held, u, hs, hrem, hwrite, hq⟩

lemma Holds.bytes? {w₀ : World} (hh : s.Holds w₀ held) (hf : (f, b) ∈ held) :
    w₀.tree.bytes? (s.placeOf f) = some b :=
  Tree.bytes?_eq_some.2 (Tree.stat_eq.1 ((hh f b).1 hf).2).2

/-- No two held files lie at one place with different bytes. -/
lemma Holds.one {w₀ : World} (hh : s.Holds w₀ held) {f' : String} {b' : ByteArray} (hf : (f, b) ∈ held)
    (hf' : (f', b') ∈ held) (hp : s.placeOf f = s.placeOf f') : b = b' := by
  have hb := hh.bytes? hf
  rw [hp, hh.bytes? hf'] at hb
  exact (Option.some.inj hb).symm

/-- After a revert every held file has its bytes, those that were only named too. -/
theorem revert_held {w₀ : World} {q : FileSnapshots × World} (hr : Path.isAbsolute s.workspace = true)
    (hs : s.held = some held) (hh : s.Holds w₀ held) (h : runOn (s, w) revert = (.ok (), q)) :
    ∀ f b, (f, b) ∈ held → q.2.tree.bytes? (s.placeOf f) = some b := by
  obtain ⟨held', u, hs', -, hback, -⟩ := revert_ok h
  obtain rfl := Option.some.inj (hs.symm.trans hs')
  exact (writeBack_ok hr (fun f b f' b' hf hf' hp => hh.one hf hf' hp) hback).2.1

/-- A revert restores a place where every file counts that ever lies there. -/
lemma revert_restores_at {w₀ : World} {q : FileSnapshots × World} (hr : Path.Clear s.workspace)
    (hs : s.held = some held) (hh : s.Holds w₀ held) (h : runOn (s, w) revert = (.ok (), q)) {p : Place} (hp : p ≠ [])
    (hcounts : ∀ (v : World) b, v.tree.bytes? (Path.lexical s.workspace ++ p) = some b →
      Path.ofComponents p ∈ s.files v) :
    q.2.tree.bytes? (Path.lexical s.workspace ++ p) = w₀.tree.bytes? (Path.lexical s.workspace ++ p) := by
  obtain ⟨held', u, hs', hrem, hback, -⟩ := revert_ok h
  obtain rfl := Option.some.inj (hs.symm.trans hs')
  obtain ⟨hsh, hcov⟩ := removeNew_ok hr hrem
  obtain ⟨-, hheld, hfree⟩ := writeBack_ok hr.absolute (fun f b f' b' hf hf' hp => hh.one hf hf' hp) hback
  rcases hb : w₀.tree.bytes? (Path.lexical s.workspace ++ p) with _ | b
  · -- nothing was there: what came was removed, and nothing is written there
    rw [Option.eq_none_iff_forall_ne_some]
    intro c hc
    have hnot : ∀ f b, (f, b) ∈ held → Path.lexical s.workspace ++ p ≠ s.placeOf f := by
      intro f b hf heq
      rw [heq, hh.bytes? hf] at hb
      exact absurd hb nofun
    rw [hfree _ hnot] at hc
    obtain ⟨d, hd⟩ := hcov p hp (hcounts w c (hsh.bytes? hc)) c hc
    exact hnot _ d hd (stat_of_bytes? hr hp (hsh.bytes? hc)).1.symm
  · obtain ⟨hplace, hst⟩ := stat_of_bytes? hr hp hb
    rw [← hplace]
    exact hheld _ b ((hh _ _).2 ⟨hcounts w₀ b hb, hst⟩)

/-- **A revert restores what a checkpoint held.** Whatever was done to the tree in between, every covered
place has the bytes that it had then, or none when it had none. -/
theorem revert_restores {w₀ : World} {q : FileSnapshots × World} (hr : Path.Clear s.workspace)
    (hs : s.held = some held) (hh : s.Holds w₀ held) (h : runOn (s, w) revert = (.ok (), q)) :
    q.1 = s.forget ∧ q.2.here = w.here ∧ ∀ p, s.Covers p →
      q.2.tree.bytes? (Path.lexical s.workspace ++ p) = w₀.tree.bytes? (Path.lexical s.workspace ++ p) := by
  refine ⟨?_, ?_, fun p hp => revert_restores_at hr hs hh h hp.1 fun v b hb => mem_files_of_covers hr hp hb⟩
  · obtain ⟨-, -, -, -, -, hq⟩ := revert_ok h
    exact hq
  · obtain ⟨held', u, hs', hrem, hback, -⟩ := revert_ok h
    obtain rfl := Option.some.inj (hs.symm.trans hs')
    obtain ⟨hhere, -⟩ := writeBack_ok hr.absolute (fun f b f' b' hf hf' hp => hh.one hf hf' hp) hback
    exact hhere.trans (removeNew_ok hr hrem).1.1

/-! ### What a revert leaves alone -/

section
variable {P : Place → Prop}

lemma spares_removeNew {fs : List String}
    (h : ∀ f ∈ fs, P (s.placeOf f) → (held.lookup f).isSome = true) : Act.Spares P (s.removeNew held fs) := by
  induction fs with
  | nil => exact .pure _
  | cons f fs ih =>
    have hrest := ih fun g hg => h g (List.mem_cons_of_mem f hg)
    unfold removeNew
    refine .bind (.isFile _) fun there => ?_
    split
    · rename_i hnew
      refine .bind (.edit fun t t' ht p hp => Tree.bytes?_congr ?_) fun _ => hrest
      rw [(Tree.remove_ok ht).2, if_neg]
      rintro rfl
      have hheld := h f List.mem_cons_self hp
      rw [Option.isSome_iff_ne_none] at hheld
      rw [Bool.and_eq_true, Option.isNone_iff_eq_none] at hnew
      exact hheld hnew.1
    · exact hrest

/-- Files that have the bytes that are held are not written. -/
lemma writeBack_agree (hr : Path.Clear s.workspace) {r : Except Fault Unit}
    (h : ∀ f c, (f, c) ∈ held → P (s.placeOf f) → ∃ q, q ≠ [] ∧ f = Path.ofComponents q ∧
      w.tree.bytes? (Path.lexical s.workspace ++ q) = some c ∧ P (Path.lexical s.workspace ++ q))
    (hrun : runOn w (s.writeBack held) = (r, w')) : World.Agree P w w' := by
  induction held generalizing w with
  | nil =>
    rw [← (Prod.mk.inj hrun).2]
    exact .refl w
  | cons x held ih =>
    obtain ⟨f, c⟩ := x
    have hpath : Path.isAbsolute (Path.join s.workspace f) = true := Path.isAbsolute_join f hr.absolute
    have hlater : ∀ {u : World}, World.Agree P w u → runOn u (s.writeBack held) = (r, w') → World.Agree P w w' := by
      intro u hu hrest
      refine hu.trans (ih (fun g d hg hp => ?_) hrest)
      obtain ⟨q, hq, hgq, hb, hP⟩ := h g d (List.mem_cons_of_mem _ hg) hp
      exact ⟨q, hq, hgq, by rw [hu.files _ hP, hb], hP⟩
    have hwrite : ¬ P (s.placeOf f) → runOn w (do
        ensureDirectories (Path.parent (Path.join s.workspace f))
        writeBytes (Path.join s.workspace f) c
        s.writeBack held) = (r, w') → World.Agree P w w' := by
      intro hP hw
      have hspares : Act.Spares P (do
          ensureDirectories (Path.parent (Path.join s.workspace f))
          writeBytes (Path.join s.workspace f) c) :=
        .bind (.ensureDirectories _) fun _ => .writeBytes c hpath fun p hp heq => hP (by
            rwa [heq] at hp)
      have hag := hspares w
      rw [runOn_bind] at hw hag
      rcases hd : runOn w (ensureDirectories (Path.parent (Path.join s.workspace f))) with ⟨g | _, u⟩
      · rw [hd] at hw hag
        rw [← (Prod.mk.inj hw).2]
        exact hag
      · rw [hd] at hw hag
        dsimp only at hw hag
        rw [runOn_bind] at hw
        rcases hb : runOn u (writeBytes (Path.join s.workspace f) c) with ⟨g | _, v⟩
        · rw [hb] at hw hag
          rw [← (Prod.mk.inj hw).2]
          exact hag
        · rw [hb] at hw hag
          exact hlater hag hw
    by_cases hP : P (s.placeOf f)
    · obtain ⟨q, hq, rfl, hb, -⟩ := h f c List.mem_cons_self hP
      obtain ⟨-, hst⟩ := stat_of_bytes? hr hq hb
      simp only [writeBack, runOn_bind, runOn_look, hst, beq_self_eq_true, if_true] at hrun
      exact hlater (.refl w) hrun
    · simp only [writeBack, runOn_bind (look _), runOn_look] at hrun
      split at hrun
      · split at hrun
        · exact hlater (.refl w) hrun
        · exact hwrite hP hrun
      · exact hwrite hP hrun

/-- **A revert leaves alone what is as it was at the checkpoint**, however it ends. Files that were only named may have
changed with what their paths lead through, so none of them may be among what is left alone. -/
theorem revert_agree {w₀ : World} {r : Except Fault Unit} {q : FileSnapshots × World} (hr : Path.Clear s.workspace)
    (hs : s.held = some held) (hh : s.Holds w₀ held) (hsame : ∀ p, P p → w.tree.bytes? p = w₀.tree.bytes? p)
    (hnamed : ∀ f ∈ s.named, ¬ P (s.placeOf f)) (h : runOn (s, w) revert = (r, q)) : World.Agree P w q.2 := by
  have hwalked : ∀ {v : World} {f}, f ∈ s.files v → P (s.placeOf f) → ∃ d, s.Covers d ∧ f = Path.ofComponents d ∧
      ∃ b, v.tree.bytes? (Path.lexical s.workspace ++ d) = some b := by
    intro v f hf hP
    rw [files, Snapshots.ascending, List.mem_eraseDups, List.mem_mergeSort, List.mem_append, List.mem_filter] at hf
    rcases hf with ⟨hf, hex⟩ | hf
    · obtain ⟨d, hd, hreach, ⟨b, hb⟩, rfl⟩ := (Workspace.mem_files hr).1 hf
      exact ⟨d, ⟨hd, hreach, by simpa using hex⟩, rfl, b, Tree.bytes?_eq_some.2 hb⟩
    · exact absurd hP (hnamed f hf)
  have hremove : Act.Spares P (s.removeNew held (s.files w)) := by
    refine spares_removeNew fun f hf hP => ?_
    obtain ⟨d, hd, rfl, b, hb⟩ := hwalked hf hP
    obtain ⟨hplace, -⟩ := stat_of_bytes? hr hd.1 hb
    rw [hplace] at hP
    rw [hsame _ hP] at hb
    rw [Option.isSome_iff_ne_none, ne_eq, List.lookup_eq_none_iff]
    intro hnone
    exact absurd (hnone _ ((hh _ _).2 ⟨mem_files_of_covers hr hd hb, (stat_of_bytes? hr hd.1 hb).2⟩)) (by simp)
  have hheld : ∀ {u : World}, World.Agree P w u → ∀ f c, (f, c) ∈ held → P (s.placeOf f) → ∃ d, d ≠ [] ∧
      f = Path.ofComponents d ∧ u.tree.bytes? (Path.lexical s.workspace ++ d) = some c ∧
        P (Path.lexical s.workspace ++ d) := by
    intro u hu f c hf hP
    obtain ⟨d, hd, rfl, b, hb⟩ := hwalked ((hh f c).1 hf).1 hP
    obtain ⟨hplace, -⟩ := stat_of_bytes? hr hd.1 hb
    rw [hplace] at hP
    exact ⟨d, hd.1, rfl, by rw [hu.files _ hP, hsame _ hP, ← hplace, hh.bytes? hf], hP⟩
  have hafter := hremove w
  obtain ⟨-, rfl, -⟩ | ⟨held', u, hs', hcases⟩ := revert_cases h
  · exact .refl w
  · obtain rfl := Option.some.inj (hs.symm.trans hs')
    obtain ⟨_, -, -, ⟨g, hrem⟩ | ⟨hrem, g, hwrite⟩⟩ | ⟨-, -, hrem, hwrite⟩ := hcases
    · rwa [hrem] at hafter
    · rw [hrem] at hafter
      exact hafter.trans (writeBack_agree hr (hheld hafter) hwrite)
    · rw [hrem] at hafter
      exact hafter.trans (writeBack_agree hr (hheld hafter) hwrite)

end

end Ratchet.FileSnapshots
