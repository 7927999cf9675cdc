import Ratchet.Backup.Archive
import Ratchet.Proofs.Number
import Ratchet.Proofs.Spared

/-!
What the archive leaves alone.

Reading the archive changes nothing. Making a backup changes files only in the backup's staging directory and, if
nothing fails, in its place; both lie below the root of the archive, and everything else is only read.
-/

namespace Ratchet

/-! ### Names of backups -/

lemma Text.exists_digitChar {n : Nat} {c : Char} (h : c ∈ Nat.toDigits 16 n) : ∃ k < 16, c = Nat.digitChar k := by
  induction n using Nat.strong_induction_on with
  | _ n ih =>
    rw [Nat.toDigits_eq_if (by decide)] at h
    split at h
    · rename_i hn
      exact ⟨n, hn, List.mem_singleton.1 h⟩
    · rename_i hn
      rcases List.mem_append.1 h with h | h
      · exact ih (n / 16) (by omega) h
      · exact ⟨n % 16, Nat.mod_lt _ (by decide), List.mem_singleton.1 h⟩

lemma Text.isAlphanum_of_mem_hexPadded {width n : Nat} {c : Char} (h : c ∈ Text.hexPadded width n) :
    c.isAlphanum = true := by
  rcases List.mem_append.1 h with h | h
  · rw [List.eq_of_mem_replicate h]
    rfl
  · obtain ⟨k, hk, rfl⟩ := Text.exists_digitChar h
    have hall : ∀ k < 16, (Nat.digitChar k).isAlphanum = true := by decide
    exact hall k hk

lemma Instant.isAlphanum_of_mem_stamp {i : Instant} {c : Char} (h : c ∈ i.stamp.toList) :
    c.isAlphanum = true := by
  have hfield : ∀ (width : Nat) (n : Int), c ∈ Instant.field width n → c.isAlphanum = true := fun _ _ hc => by
    rw [Char.isAlphanum, Number.isDigit_of_mem_padded c hc, Bool.or_true]
  rw [Instant.stamp] at h
  obtain ⟨y, mo, d, hour, mi, s, us⟩ := i.fields
  simp only [String.toList_ofList, List.mem_append, List.mem_cons, List.not_mem_nil, or_false] at h
  rcases h with ((((((h | h) | h) | rfl | h) | h) | h) | h) | rfl
  · exact hfield _ _ h
  · exact hfield _ _ h
  · exact hfield _ _ h
  · rfl
  · exact hfield _ _ h
  · exact hfield _ _ h
  · exact hfield _ _ h
  · exact hfield _ _ h
  · rfl

namespace Archive

/-- The name of a backup has letters, digits and hyphens. -/
lemma of_mem_nameOf {now : Instant} {n : Nat} {c : Char} (h : c ∈ (nameOf now n).toList) :
    c.isAlphanum = true ∨ c = '-' := by
  simp only [nameOf, String.toList_append, String.toList_ofList, List.mem_append] at h
  rcases h with ((h | h) | h) | h
  · have hall : "backup-".toList.all (fun d => d.isAlphanum || d == '-') = true := by decide
    simpa using List.all_eq_true.1 hall c h
  · exact .inl (Instant.isAlphanum_of_mem_stamp h)
  · exact .inr (List.mem_singleton.1 h)
  · exact .inl (Text.isAlphanum_of_mem_hexPadded h)

/-- A text of letters, digits and hyphens can be a component of a path, also with a dot in front. -/
lemma proper_nameOf (now : Instant) (n : Nat) :
    Path.Proper (nameOf now n) ∧ '/' ∉ (nameOf now n).toList ∧
      Path.Proper (stagingMark ++ nameOf now n) ∧ '/' ∉ (stagingMark ++ nameOf now n).toList := by
  have hslash : '/' ∉ (nameOf now n).toList := fun h => (of_mem_nameOf h).elim (by decide) (by decide)
  have hstart : ∃ l, (nameOf now n).toList = 'b' :: 'a' :: 'c' :: l := by
    simp [nameOf, String.toList_append]
  have hmark : ∃ l, (stagingMark ++ nameOf now n).toList = '.' :: 's' :: 't' :: l := by
    simp [stagingMark, String.toList_append]
  have hproper : ∀ {s : String} {a b c : Char}, (∃ l, s.toList = a :: b :: c :: l) → Path.Proper s := by
    rintro s a b c ⟨l, hl⟩
    refine ⟨?_, ?_, ?_⟩
    all_goals
      rintro rfl
      exact absurd hl (by simp)
  refine ⟨hproper hstart, hslash, hproper hmark, ?_⟩
  rw [String.toList_append, List.mem_append]
  exact fun h => h.elim (by decide) hslash

/-! ### Reading -/

variable {P : Place → Prop} {a : Archive}

lemma looks_readManifest (dir : String) : Act.Looks (readManifest dir) :=
  .bind (.readText _) fun _ => .ofResult _

lemma looks_readAll (a : Archive) (names : List String) : Act.Looks (a.readAll names) := by
  induction names with
  | nil => exact .pure _
  | cons n ns ih =>
    refine .bind (.isFile _) fun there => .ite _ ?_ ih
    refine .bind (.outcome (looks_readManifest _)) fun r => ?_
    rcases r with f | b
    · exact .ite _ ih (.throw _)
    · exact .bind ih fun _ => .pure _

lemma looks_list (a : Archive) : Act.Looks a.list := by
  refine .bind (.look _) fun names => .bind (looks_readAll a names) fun bs => ?_
  rcases Backup.inOrder? bs with _ | bs
  · exact .throw _
  · exact .pure _

lemma looks_nextSequence (a : Archive) : Act.Looks a.nextSequence := .bind (looks_list a) fun _ => .pure _

lemma looks_directory (a : Archive) (name : String) : Act.Looks (a.directory name) := .ite _ (.throw _) (.pure _)

lemma looks_find (a : Archive) (name : String) : Act.Looks (a.find name) :=
  .bind (looks_directory a name) fun _ => .bind (.isFile _) fun _ => .ite _ (.told _ _ (looks_readManifest _)) (.throw _)

lemma looks_problems (b : Backup) (dir : String) (fs : List String) : Act.Looks (problems b dir fs) := by
  induction fs with
  | nil => exact .pure _
  | cons f fs ih =>
    have hrest : ∀ found : List String, Act.Looks (do return found ++ (← problems b dir fs)) := fun found =>
      .bind ih fun _ => .pure _
    refine .bind (.isFile _) fun there => .ite _ (.bind (.readBytes _) fun _ => .ite _ ?_ ?_) ?_
    · exact .bind (.pure _) hrest
    · exact .bind (.pure _) hrest
    · exact .bind (.pure _) hrest

lemma looks_verify (a : Archive) (name : String) : Act.Looks (a.verify name) :=
  .bind (looks_find a name) fun _ => looks_problems _ _ _

/-! ### Making backups -/

lemma spares_ensure (a : Archive) : Act.Spares P a.ensure := .told _ _ (.ensureDirectories _)

/-- A copy lands at or below the place that it is made for. -/
lemma get?_copy {t t' : Tree} {source target : String} (ht : Path.Clear target) (h : t.copy source target = .ok t')
    {p : Place} (hp : ¬ Path.lexical target <+: p) : t'.get? p = t.get? p := by
  obtain ⟨b, hs, hb, -, -, hw⟩ := Tree.copy_ok h
  have hland : Path.lexical target <+: Path.lexical (t.landing source target) := by
    rw [Tree.landing]
    split
    · rw [Path.lexical_join_name ht (Tree.proper_name hs hb)]
      exact List.prefix_append _ _
    · exact List.prefix_rfl
  have hne : p ≠ Path.lexical (t.landing source target) := fun heq => hp (by rw [heq]; exact hland)
  rw [hw.after, if_neg hne]

lemma bytes?_copy {t t' : Tree} {source target : String} (ht : Path.Clear target) (h : t.copy source target = .ok t')
    {p : Place} (hp : ¬ Path.lexical target <+: p) : t'.bytes? p = t.bytes? p :=
  Tree.bytes?_congr (get?_copy ht h hp)

lemma resolve_ok {here root path p : String} (hh : Path.isAbsolute here = true)
    (h : Workspace.resolve here root path = .ok p) :
    Path.Clear p ∧ Path.lexical (Path.absolute here root) <+: Path.lexical p := by
  unfold Workspace.resolve at h
  split at h
  · rename_i q hq
    obtain rfl := Except.ok.inj h
    exact (Path.within?_eq_some hh hq).2
  · exact absurd h nofun

/-- Copies into a directory stay there, by induction on the files. -/
lemma spares_copyIn (a : Archive) {dir : String} (hd : Path.Clear dir) (fs : List String) :
    Act.Spares (fun p => ¬ Path.lexical dir <+: p) (a.copyIn dir fs) := by
  induction fs with
  | nil => exact .pure _
  | cons f fs ih =>
    refine .bind .get fun w => .ofResult_bind fun source hs => .ofResult_bind fun target ht => ?_
    obtain ⟨htarget, hbelow⟩ := resolve_ok w.rooted ht
    rw [Path.lexical_absolute hd.absolute] at hbelow
    refine .bind (.ensureDirectories _) fun _ => .bind (.edit fun t t' h p hp => ?_) fun _ =>
      .bind (.readBytes _) fun _ => .bind ih fun _ => .pure _
    exact bytes?_copy htarget h fun h => hp (hbelow.trans h)

/-- Moving something moves only what lies below the one place or the other. -/
lemma bytes?_rename {t t' : Tree} {source target : String} (h : t.rename source target = .ok t') {p : Place}
    (hs : ¬ Path.lexical source <+: p) (ht : ¬ Path.lexical target <+: p) : t'.bytes? p = t.bytes? p := by
  obtain ⟨e, -, -, -, -, -, rfl⟩ := Tree.rename_ok h
  refine Tree.bytes?_congr ?_
  by_cases hm : Entries.moves t.entries (Path.lexical source) (Path.lexical target) = true
  · rw [Tree.get?_move_other hm ht, if_neg hs]
  · rw [Tree.move, dif_neg hm]

/-- The place of the directory in which a backup is put together. -/
def stagingPlace (a : Archive) (name : String) : Place := Path.lexical a.root ++ [stagingMark ++ name]

/-- The place of a backup's directory. -/
def placeOf (a : Archive) (name : String) : Place := Path.lexical a.root ++ [name]

/-- The paths that a backup is put together at, and their places. -/
structure Sites (a : Archive) (name : String) : Prop where
  place : Path.Clear (Path.join a.root name) ∧ Path.lexical (Path.join a.root name) = a.placeOf name
  staging : Path.Clear (Path.join a.root (stagingMark ++ name)) ∧
    Path.lexical (Path.join a.root (stagingMark ++ name)) = a.stagingPlace name
  files : Path.Clear (Path.join (Path.join a.root (stagingMark ++ name)) filesName) ∧
    Path.lexical (Path.join (Path.join a.root (stagingMark ++ name)) filesName) = a.stagingPlace name ++ [filesName]
  manifest : Path.Clear (Path.join (Path.join a.root (stagingMark ++ name)) manifestName) ∧
    Path.lexical (Path.join (Path.join a.root (stagingMark ++ name)) manifestName) =
      a.stagingPlace name ++ [manifestName]

lemma sites_nameOf (ha : Path.Clear a.root) (now : Instant) (n : Nat) : Sites a (nameOf now n) := by
  obtain ⟨hname, hslash, hmark, hslash'⟩ := proper_nameOf now n
  have hstaging := ha.child hmark hslash'
  refine ⟨ha.child hname hslash, hstaging, ?_, ?_⟩
  · have h := hstaging.1.child (n := filesName) (by decide) (by decide)
    rwa [hstaging.2] at h
  · have h := hstaging.1.child (n := manifestName) (by decide) (by decide)
    rwa [hstaging.2] at h

lemma spares_assemble (ha : Path.Clear a.root) (now : Instant) (n : Nat) (description : String)
    (files : List String) :
    Act.Spares (fun p => ¬ a.stagingPlace (nameOf now n) <+: p ∧ ¬ a.placeOf (nameOf now n) <+: p)
      (a.assemble now (nameOf now n) description files) := by
  have hs := sites_nameOf ha now n
  refine .bind (.edit fun t t' h p _ => (Tree.newDirectories_grown h).bytes? p) fun _ => ?_
  refine .bind ((spares_copyIn a hs.files.1 files).mono fun p hp h => hp.1 (List.IsPrefix.trans ?_ h)) fun _ => ?_
  · rw [hs.files.2]
    exact List.prefix_append _ _
  refine .bind (looks_nextSequence a).spares fun _ => .bind (.ofResult _) fun _ => ?_
  refine .bind (.writeText _ hs.manifest.1.absolute fun p hp heq => hp.1 ?_) fun _ => ?_
  · rw [heq, hs.manifest.2]
    exact List.prefix_append _ _
  refine .bind (.edit fun t t' h p hp => bytes?_rename h ?_ ?_) fun _ => .pure _
  · rw [hs.staging.2]
    exact hp.1
  · rw [hs.place.2]
    exact hp.2

/-- A backup that fails leaves everything alone but its staging directory. -/
lemma failsSparing_assemble (ha : Path.Clear a.root) (now : Instant) (n : Nat) (description : String)
    (files : List String) :
    Act.FailsSparing (fun p => ¬ a.stagingPlace (nameOf now n) <+: p)
      (a.assemble now (nameOf now n) description files) := by
  have hs := sites_nameOf ha now n
  refine .bind (.edit fun t t' h p _ => (Tree.newDirectories_grown h).bytes? p) fun _ => ?_
  refine .bind ((spares_copyIn a hs.files.1 files).mono fun p hp h => hp (List.IsPrefix.trans ?_ h)) fun _ => ?_
  · rw [hs.files.2]
    exact List.prefix_append _ _
  refine .bind (looks_nextSequence a).spares fun _ => .bind (.ofResult _) fun _ => ?_
  refine .bind (.writeText _ hs.manifest.1.absolute fun p hp heq => hp ?_) fun _ => ?_
  · rw [heq, hs.manifest.2]
    exact List.prefix_append _ _
  exact .bind_pure _ (.edit _)

lemma runOn_discard {w : World} {dir : String} :
    Act.runOn w (discard dir) = (.ok (), (Act.runOn w (discard dir)).2) := rfl

lemma spares_discard {dir : String} : Act.Spares (fun p => ¬ Path.lexical dir <+: p) (discard dir) := by
  refine .bind (.outcome (.edit fun t t' h p hp => ?_)) fun _ => .pure _
  obtain ⟨-, rfl⟩ := Tree.removeAll_ok h
  exact Tree.bytes?_congr (by rw [Tree.get?_erase, if_neg fun hpre => hp hpre.1])

/-- **Making a backup changes nothing outside the archive.** -/
theorem spares_create (ha : Path.Clear a.root) (files : List String) (description : String) :
    Act.Spares (fun p => ¬ Path.lexical a.root <+: p) (a.create files description) := by
  refine .bind (spares_ensure a) fun _ => .bind .get fun w => .bind .draw fun n => ?_
  have hbelow : ∀ {name p}, ¬ Path.lexical a.root <+: p → ¬ a.placeOf name <+: p := fun hp h =>
    hp ((List.prefix_append _ _).trans h)
  refine .bind (.outcome ((spares_assemble ha w.now n description (a.wanted w.here files)).mono fun p hp =>
    ⟨hbelow hp, hbelow hp⟩)) fun r => ?_
  rcases r with f | b
  · refine .ite _ (.bind (spares_discard.mono fun p hp => ?_) fun _ => .throw _) (.throw _)
    rw [(sites_nameOf ha w.now n).staging.2]
    exact hbelow hp
  · exact .pure _

/-- How making a backup ends: the archive cannot be made ready; the backup is put together under the next name; or it
fails, and its staging directory is discarded if the fault is one that operations on files have. -/
lemma create_cases {files : List String} {description : String} {w w' : World} {r : Except Fault Backup}
    (h : Act.runOn w (a.create files description) = (r, w')) :
    (∃ f, r = .error f ∧ Act.runOn w a.ensure = (.error f, w')) ∨
      ∃ u, Act.runOn w a.ensure = (.ok (), u) ∧ ∃ n v, n = u.draws + 1 ∧ v = { u with draws := n } ∧
        ((∃ b, r = .ok b ∧ Act.runOn v (a.assemble u.now (nameOf u.now n) description (a.wanted u.here files)) =
          (.ok b, w')) ∨
        ∃ f x, Act.runOn v (a.assemble u.now (nameOf u.now n) description (a.wanted u.here files)) = (.error f, x) ∧
          ((f.kind.isSystem || f.kind.isValue) = true ∧ r = .error (.wrap .backup "Backup failed" f) ∧
              w' = (Act.runOn x (discard (Path.join a.root (stagingMark ++ nameOf u.now n)))).2 ∨
            (f.kind.isSystem || f.kind.isValue) = false ∧ r = .error f ∧ w' = x)) := by
  unfold create at h
  rw [Act.runOn_bind] at h
  rcases he : Act.runOn w a.ensure with ⟨f | ⟨⟩, u⟩
  · rw [he] at h
    obtain ⟨rfl, rfl⟩ := Prod.mk.inj h
    exact .inl ⟨f, rfl, rfl⟩
  · rw [he] at h
    dsimp only at h
    rw [Act.runOn_bind, Act.runOn_get] at h
    dsimp only at h
    rw [Act.runOn_bind, Act.runOn_draw] at h
    dsimp only at h
    rw [Act.runOn_outcome_bind] at h
    refine .inr ⟨u, rfl, u.draws + 1, _, rfl, rfl, ?_⟩
    generalize Act.runOn _ (a.assemble u.now (nameOf u.now (u.draws + 1)) description (a.wanted u.here files)) = y at h ⊢
    obtain ⟨f | b, x⟩ := y
    · dsimp only at h
      rw [Act.runOn_ite] at h
      split at h
      · rename_i hf
        rw [Act.runOn_bind_ok _ runOn_discard, Act.runOn_throw] at h
        obtain ⟨rfl, rfl⟩ := Prod.mk.inj h
        exact .inr ⟨f, x, rfl, .inl ⟨hf, rfl, rfl⟩⟩
      · rename_i hf
        rw [Act.runOn_throw] at h
        obtain ⟨rfl, rfl⟩ := Prod.mk.inj h
        exact .inr ⟨f, x, rfl, .inr ⟨Bool.eq_false_iff.2 hf, rfl, rfl⟩⟩
    · dsimp only at h
      rw [Act.runOn_pure] at h
      obtain ⟨rfl, rfl⟩ := Prod.mk.inj h
      exact .inl ⟨b, rfl, rfl⟩

/-- A backup that fails changes nothing but its staging directory. -/
lemma create_error (ha : Path.Clear a.root) {files : List String} {description : String} {w w' : World} {f : Fault}
    (h : Act.runOn w (a.create files description) = (.error f, w')) :
    ∃ now n, World.Agree (fun p => ¬ a.stagingPlace (nameOf now n) <+: p) w w' := by
  rcases create_cases h with ⟨f', -, he⟩ | ⟨u, he, n, v, -, rfl, ⟨b, hb, -⟩ | ⟨g, x, hx, hw⟩⟩
  · have hw := spares_ensure (P := fun p => ¬ a.stagingPlace (nameOf w.now 0) <+: p) a w
    rw [he] at hw
    exact ⟨_, _, hw⟩
  · exact absurd hb nofun
  · have hu := spares_ensure (P := fun p => ¬ a.stagingPlace (nameOf u.now n) <+: p) a w
    rw [he] at hu
    have hv : World.Agree (fun p => ¬ a.stagingPlace (nameOf u.now n) <+: p) u { u with draws := n } :=
      ⟨rfl, fun _ _ => rfl⟩
    have hassemble := (hu.trans hv).trans (failsSparing_assemble ha _ _ _ _ _ _ _ hx)
    refine ⟨u.now, n, ?_⟩
    rcases hw with ⟨-, -, hw⟩ | ⟨-, -, hw⟩
    · rw [hw]
      refine hassemble.trans ?_
      rw [← (sites_nameOf ha u.now n).staging.2]
      exact spares_discard x
    · rw [hw]
      exact hassemble

end Archive

end Ratchet
