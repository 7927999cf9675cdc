import Ratchet.Proofs.Backup.Granted
import Ratchet.Proofs.Backup.Outcome

/-!
Manifests that cannot be read.

A manifest with any bytes reads as a backup, or it fails to with a fault that says that it cannot be read, and is left
out where backups are listed. There are two exceptions (`Amiss`): a text of JSON that is no map, and one that nests too
deeply. A manifest of that kind stops every listing, and with it the making of the next backup, which leaves its staging
directory behind; the backup itself can be neither found nor checked nor restored, and the fault is none of a store of
backups. The same comes of two backups with one sequence number of which only one tells its offset from universal time.
`unreadable_contained_iff` says that nothing else does.
-/

namespace Ratchet

namespace Archive

open Act

variable {a : Archive} {w w' : World} {t t' : Tree} {n name dir : String} {c : ByteArray} {f : Fault} {ns : List String}

/-! ### What comes of bytes -/

/-- A text with its line breaks as line feeds. -/
def unified (s : String) : String := String.ofList (Text.unifyBreaks s.toList)

/-- What comes of the bytes of a manifest in a directory. -/
def ofBytes (dir : String) (c : ByteArray) : Except Fault Backup :=
  match Text.decode? c with
  | none => .error (.encoding c)
  | some s => ofManifest dir (unified s)

/-- Whether the bytes of a manifest are a text of JSON that is no map, or that nests too deeply to be read. -/
inductive Amiss (c : ByteArray) : Prop
  | noMap {s : String} {d : Datum} (hs : Text.decode? c = some s) (hd : Json.read (unified s) = .ok d)
      (hmap : ∀ es, d ≠ .map es)
  | tooDeep {s : String} (hs : Text.decode? c = some s) (hdeep : Json.read (unified s) = .error .tooDeep)

/-- Whether a fault is one of those that nobody who reads manifests reckons with. -/
def Wild (f : Fault) : Prop := f = .badType ∨ f = .tooDeep

lemma Wild.kind (h : Wild f) : isUnreadable f.kind = false ∧ f.kind.isBackup = false := by
  rcases h with rfl | rfl
  · exact ⟨by decide, by decide⟩
  · exact ⟨by decide, by decide⟩

lemma Wild.not_contained (h : Wild f) : (f.kind.isSystem || f.kind.isValue) = false := by
  rcases h with rfl | rfl
  · decide
  · decide

lemma Amiss.ofBytes (h : Amiss c) (dir : String) : ∃ f, Wild f ∧ Archive.ofBytes dir c = .error f := by
  rcases h with ⟨hs, hd, hmap⟩ | ⟨hs, hdeep⟩
  · refine ⟨_, .inl rfl, ?_⟩
    simp only [Archive.ofBytes, hs, ofManifest, hd]
  · refine ⟨_, .inr rfl, ?_⟩
    simp only [Archive.ofBytes, hs, ofManifest, hdeep]

/-- Other bytes are no text, or the text is no JSON, or it is that of a map. -/
lemma not_amiss_cases (h : ¬ Amiss c) : Text.decode? c = none ∨ ∃ s, Text.decode? c = some s ∧
    ((∃ e, e ≠ .tooDeep ∧ Json.read (unified s) = .error e) ∨ ∃ es, Json.read (unified s) = .ok (.map es)) := by
  rcases hs : Text.decode? c with _ | s
  · exact .inl rfl
  refine .inr ⟨s, rfl, ?_⟩
  rcases hread : Json.read (unified s) with e | d
  · refine .inl ⟨e, ?_, rfl⟩
    rintro rfl
    exact h (.tooDeep hs hread)
  · by_cases hmap : ∃ es, d = .map es
    · obtain ⟨es, rfl⟩ := hmap
      exact .inr ⟨es, rfl⟩
    · exact absurd (.noMap hs hread fun es hes => hmap ⟨es, hes⟩) h

/-- Other bytes are those of a backup, or the fault says that they cannot be read. -/
lemma ofBytes_of_not_amiss (h : ¬ Amiss c) (dir : String) :
    (∃ b, ofBytes dir c = .ok b) ∨ ∃ f, ofBytes dir c = .error f ∧ isUnreadable f.kind = true := by
  have hjson : isUnreadable (.other "JSONDecodeError") = true := by decide
  have hencoding : isUnreadable (.other "UnicodeDecodeError") = true := by decide
  have hvalidation : isUnreadable (.other "ValidationError") = true := by decide
  rcases not_amiss_cases h with hs | ⟨s, hs, hread⟩
  · exact .inr ⟨.encoding c, by rw [ofBytes, hs], hencoding⟩
  have hof : ofBytes dir c = ofManifest dir (unified s) := by rw [ofBytes, hs]
  rw [hof, ofManifest]
  rcases hread with ⟨e, he, hread⟩ | ⟨es, hread⟩
  · rw [hread]
    cases e with
    | malformed => exact .inr ⟨_, rfl, hjson⟩
    | longNumber n => exact .inr ⟨_, rfl, rfl⟩
    | tooDeep => exact absurd rfl he
  · rw [hread]
    dsimp only
    rcases Backup.ofEntries (Datum.putEntry (.text "backup_path") (.text dir) es) with b | issues
    · exact .inl ⟨b, rfl⟩
    · exact .inr ⟨_, rfl, hvalidation⟩

/-! ### Reading what lies in an archive -/

lemma runOn_readManifest_of_read (h : w.tree.read (w.located (Path.join dir manifestName)) = .ok c) :
    runOn w (readManifest dir) = (ofBytes dir c, w) := by
  rw [readManifest, runOn_ofResult_readText _ h, textOf, ofBytes]
  rcases Text.decode? c with _ | s
  · rfl
  · rfl

/-- What lies under a name of an archive is a manifest or not, and is read. -/
lemma runOn_manifest (ha : Path.Clear a.root) (hn : Path.Proper n) (hslash : '/' ∉ n.toList) :
    w.tree.isFile (w.located (Path.join (Path.join a.root n) manifestName)) = (w.tree.bytes? (a.manifestPlace n)).isSome ∧
    ∀ c, w.tree.bytes? (a.manifestPlace n) = some c →
      runOn w (readManifest (Path.join a.root n)) = (ofBytes (Path.join a.root n) c, w) := by
  obtain ⟨hclear, hplace⟩ := ha.child hn hslash
  have hlocated := World.located_absolute (w := w)
    (hclear.child (n := manifestName) (by decide) (by decide)).1.absolute
  refine ⟨?_, fun c hc => runOn_readManifest_of_read ?_⟩
  · rw [hlocated, Tree.isFile_child hclear (by decide) (by decide), hplace]
    rfl
  · rw [hlocated]
    refine Tree.read_child hclear (by decide) (by decide) ?_
    rw [hplace]
    exact hc

/-- A name that is not listed, or under which no manifest lies, is passed over. -/
lemma readAll_passed (ha : Path.Clear a.root) (hn : Path.Proper n ∧ '/' ∉ n.toList)
    (h : ¬ Listed n ∨ w.tree.bytes? (a.manifestPlace n) = none) :
    runOn w (a.readAll (n :: ns)) = runOn w (a.readAll ns) := by
  rw [Archive.readAll, runOn_bind_ok _ (runOn_isFile _), (runOn_manifest ha hn.1 hn.2).1, if_neg]
  rcases h with h | h
  · have hdot : n.toList.head? = some '.' := not_not.1 h
    simp [hdot]
  · simp [h]

/-- What a manifest under a listed name adds to what is read. -/
lemma readAll_listed (ha : Path.Clear a.root) (hn : Path.Proper n ∧ '/' ∉ n.toList) (hlisted : Listed n)
    (hc : w.tree.bytes? (a.manifestPlace n) = some c) :
    runOn w (a.readAll (n :: ns)) = match ofBytes (Path.join a.root n) c with
      | .ok b => runOn w (do return b :: (← a.readAll ns))
      | .error f => if isUnreadable f.kind = true then runOn w (a.readAll ns) else (.error f, w) := by
  obtain ⟨hfile, hread⟩ := runOn_manifest (w := w) ha hn.1 hn.2
  have hthere : (n.toList.head? != some '.' && (w.tree.bytes? (a.manifestPlace n)).isSome) = true := by
    have hdot : n.toList.head? ≠ some '.' := hlisted
    rw [hc]
    simpa using hdot
  rw [Archive.readAll, runOn_bind_ok _ (runOn_isFile _), hfile, hthere, if_pos rfl, runOn_outcome_bind, hread c hc]
  rcases ofBytes (Path.join a.root n) c with f | b
  · dsimp only
    rw [runOn_ite]
    rfl
  · rfl

/-- The backup that is read under a name, if one is. -/
def loaded (a : Archive) (t : Tree) (n : String) : Option Backup :=
  if n.toList.head? = some '.' then none
  else (t.bytes? (a.manifestPlace n)).bind fun c => (ofBytes (Path.join a.root n) c).toOption

/-- The backups that are read, in the order of their creation. -/
def loadable (a : Archive) (t : Tree) : List Backup :=
  ((t.namesAt (Path.lexical a.root)).filterMap (a.loaded t)).mergeSort Backup.before

/-- Whether no manifest under a listed name is amiss. -/
def Sane (a : Archive) (t : Tree) : Prop :=
  ∀ n, Listed n → ∀ c, t.bytes? (a.manifestPlace n) = some c → ¬ Amiss c

/-- What is read under names when no manifest is amiss: backups that cannot be read are left out. -/
lemma Sane.readAll (ha : Path.Clear a.root) (h : a.Sane w.tree) (hns : ∀ n ∈ ns, Path.Proper n ∧ '/' ∉ n.toList) :
    runOn w (a.readAll ns) = (.ok (ns.filterMap (a.loaded w.tree)), w) := by
  induction ns with
  | nil => rfl
  | cons n ns ih =>
    obtain ⟨hn, hns⟩ := List.forall_mem_cons.1 hns
    have hrest := ih hns
    by_cases hdot : n.toList.head? = some '.'
    · have hloaded : a.loaded w.tree n = none := if_pos hdot
      rw [readAll_passed ha hn (.inl (not_not.2 hdot)), hrest, List.filterMap_cons_none hloaded]
    have hloaded : a.loaded w.tree n = (w.tree.bytes? (a.manifestPlace n)).bind fun c =>
        (ofBytes (Path.join a.root n) c).toOption := if_neg hdot
    rcases hc : w.tree.bytes? (a.manifestPlace n) with _ | c
    · rw [hc] at hloaded
      rw [readAll_passed ha hn (.inr hc), hrest, List.filterMap_cons_none hloaded]
    · rw [hc, Option.bind_some] at hloaded
      rw [readAll_listed ha hn hdot hc]
      rcases ofBytes_of_not_amiss (h n hdot c hc) (Path.join a.root n) with ⟨b, hb⟩ | ⟨f, hf, hkind⟩
      · rw [hb] at hloaded
        rw [hb, List.filterMap_cons_some hloaded]
        exact runOn_bind_ok _ hrest
      · rw [hf] at hloaded
        rw [hf, List.filterMap_cons_none hloaded]
        exact (if_pos hkind).trans hrest

/-- A manifest that is amiss stops the reading, whatever stands beside it. -/
lemma readAll_amiss (ha : Path.Clear a.root) (hns : ∀ n ∈ ns, Path.Proper n ∧ '/' ∉ n.toList) (hn : n ∈ ns)
    (hlisted : Listed n) (hc : w.tree.bytes? (a.manifestPlace n) = some c) (hamiss : Amiss c) :
    ∃ f, Wild f ∧ runOn w (a.readAll ns) = (.error f, w) := by
  induction ns with
  | nil => exact absurd hn List.not_mem_nil
  | cons m ns ih =>
    obtain ⟨hm, hns⟩ := List.forall_mem_cons.1 hns
    by_cases hhere : Listed m ∧ ∃ c', w.tree.bytes? (a.manifestPlace m) = some c' ∧ Amiss c'
    · obtain ⟨hlisted', c', hc', hamiss'⟩ := hhere
      obtain ⟨f, hwild, hf⟩ := hamiss'.ofBytes (Path.join a.root m)
      refine ⟨f, hwild, ?_⟩
      rw [readAll_listed ha hm hlisted' hc', hf]
      exact if_neg (by simp [hwild.kind.1])
    · -- The first manifest can be passed over or read, so the fault is that of a later one.
      have hne : n ≠ m := by
        rintro rfl
        exact hhere ⟨hlisted, c, hc, hamiss⟩
      obtain ⟨f, hwild, hrest⟩ := ih hns ((List.mem_cons.1 hn).resolve_left hne)
      refine ⟨f, hwild, ?_⟩
      by_cases hm' : Listed m
      · rcases hc' : w.tree.bytes? (a.manifestPlace m) with _ | c'
        · rw [readAll_passed ha hm (.inr hc'), hrest]
        · rw [readAll_listed ha hm hm' hc']
          rcases ofBytes_of_not_amiss (fun h => hhere ⟨hm', c', hc', h⟩) (Path.join a.root m) with
            ⟨b, hb⟩ | ⟨g, hg, hkind⟩
          · rw [hb]
            exact runOn_bind_error _ hrest
          · rw [hg]
            exact (if_pos hkind).trans hrest
      · rw [readAll_passed ha hm (.inl hm'), hrest]

/-! ### Listing -/

/-- Whether an archive can be listed: no manifest is amiss, and the order of the backups that are read can be told. -/
structure Orderly (a : Archive) (t : Tree) : Prop where
  sane : a.Sane t
  comparable : ∀ m n x y, a.loaded t m = some x → a.loaded t n = some y → x.clash y = false

/-- The names under which manifests lie are among those in the archive. -/
lemma mem_names_of_manifest (hc : t.bytes? (a.manifestPlace n) = some c) : n ∈ t.namesAt (Path.lexical a.root) :=
  Tree.mem_namesAt.2 ⟨_, Tree.get?_above (List.cons_ne_nil _ []) (Tree.bytes?_eq_some.1 hc)⟩

lemma mem_names_of_loaded {b : Backup} (h : a.loaded t n = some b) : n ∈ t.namesAt (Path.lexical a.root) := by
  unfold loaded at h
  split at h
  · cases h
  · obtain ⟨c, hc, -⟩ := Option.bind_eq_some_iff.1 h
    exact mem_names_of_manifest hc

/-- The backups of an archive are read and put into their order, if there is one. -/
lemma runOn_list (ha : Path.Clear a.root) {r : Except Fault (List Backup)}
    (h : runOn w (a.readAll (w.tree.namesAt (Path.lexical a.root))) = (r, w)) :
    runOn w a.list = (r.bind fun bs => (Backup.inOrder? bs).elim (.error .badType) .ok, w) := by
  unfold Archive.list
  refine (runOn_bind_ok _ (congrArg (fun ns => (Except.ok ns, w)) (names_root ha w.tree))).trans ?_
  rw [runOn_bind, h]
  rcases r with f | bs
  · rfl
  · dsimp only
    rw [Except.bind]
    rcases Backup.inOrder? bs with _ | cs
    · rfl
    · rfl

lemma proper_of_mem_namesAt {p : Place} : ∀ n ∈ t.namesAt p, Path.Proper n ∧ '/' ∉ n.toList := by
  intro n hn
  obtain ⟨e, he⟩ := Tree.mem_namesAt.1 hn
  obtain ⟨h1, h2, -⟩ := Tree.proper_of_isName (Tree.isName_of_get? he n (by simp))
  exact ⟨h1, h2⟩

/-- An orderly archive lists what can be read. -/
lemma Orderly.list (ha : Path.Clear a.root) (h : a.Orderly w.tree) :
    runOn w a.list = (.ok (a.loadable w.tree), w) := by
  have horder : Backup.inOrder? ((w.tree.namesAt (Path.lexical a.root)).filterMap (a.loaded w.tree)) =
      some (a.loadable w.tree) := by
    refine if_neg ?_
    simp only [List.any_eq_true, not_exists, not_and]
    intro x hx y hy
    obtain ⟨m, -, hx⟩ := List.mem_filterMap.1 hx
    obtain ⟨k, -, hy⟩ := List.mem_filterMap.1 hy
    simp [h.comparable m k x y hx hy]
  rw [runOn_list ha (h.sane.readAll ha proper_of_mem_namesAt), Except.bind, horder]
  rfl

/-- An archive that is not orderly cannot be listed. -/
lemma list_of_not_orderly (ha : Path.Clear a.root) (h : ¬ a.Orderly w.tree) :
    ∃ f, Wild f ∧ runOn w a.list = (.error f, w) := by
  by_cases hsane : a.Sane w.tree
  · have hclash : ∃ m n x y, a.loaded w.tree m = some x ∧ a.loaded w.tree n = some y ∧ x.clash y = true := by
      by_contra hnone
      refine h ⟨hsane, fun m n x y hx hy => Bool.eq_false_iff.2 fun hxy => hnone ⟨m, n, x, y, hx, hy, hxy⟩⟩
    obtain ⟨m, n, x, y, hx, hy, hxy⟩ := hclash
    have horder : Backup.inOrder? ((w.tree.namesAt (Path.lexical a.root)).filterMap (a.loaded w.tree)) = none := by
      refine if_pos (List.any_eq_true.2 ⟨x, ?_, List.any_eq_true.2 ⟨y, ?_, hxy⟩⟩)
      · exact List.mem_filterMap.2 ⟨m, mem_names_of_loaded hx, hx⟩
      · exact List.mem_filterMap.2 ⟨n, mem_names_of_loaded hy, hy⟩
    rw [runOn_list ha (hsane.readAll ha proper_of_mem_namesAt), Except.bind, horder]
    exact ⟨_, .inl rfl, rfl⟩
  · obtain ⟨n, hlisted, c, hc, hamiss⟩ : ∃ n, Listed n ∧ ∃ c, w.tree.bytes? (a.manifestPlace n) = some c ∧ Amiss c := by
      by_contra hnone
      exact hsane fun n hn c hc hamiss => hnone ⟨n, hn, c, hc, hamiss⟩
    obtain ⟨f, hwild, hf⟩ := readAll_amiss ha proper_of_mem_namesAt (mem_names_of_manifest hc) hlisted hc hamiss
    exact ⟨f, hwild, runOn_list ha hf⟩

/-! ### Finding, checking and restoring -/

/-- Whether a result is a value, or a fault that a store of backups has. -/
def Contained {α : Type} (r : Except Fault α) : Prop := ∀ f, r = .error f → f.kind.isBackup = true

lemma contained_ok {α : Type} (x : α) : Contained (.ok x : Except Fault α) := nofun

lemma contained_error {α : Type} : Contained (.error f : Except Fault α) ↔ f.kind.isBackup = true :=
  ⟨fun h => h f rfl, fun h _ hg => Except.error.inj hg ▸ h⟩

/-- What is done with a value that is always contained adds nothing. -/
lemma contained_bind {α β : Type} {x : Act α} {k : α → Act β}
    (hk : ∀ y u, runOn w x = (.ok y, u) → Contained (runOn u (k y)).1) :
    Contained (runOn w (x >>= k)).1 ↔ Contained (runOn w x).1 := by
  rcases hx : runOn w x with ⟨_ | y, u⟩
  · rw [runOn_bind_error _ hx]
    exact contained_error.trans contained_error.symm
  · rw [runOn_bind_ok _ hx]
    exact iff_of_true (hk y u hx) (contained_ok y)

lemma contained_pure {α : Type} (x : α) : Contained (runOn w (pure x : Act α)).1 := contained_ok x

/-- What is told from further out is contained when every fault is, as it is told. -/
lemma contained_told {α : Type} {meant : FaultKind → Bool} {wrap : Fault → Fault} {x : Act α} :
    Contained (runOn w (told meant wrap x)).1 ↔
      ∀ g, (runOn w x).1 = .error g → (if meant g.kind then wrap g else g).kind.isBackup = true := by
  rw [runOn_told]
  rcases (runOn w x).1 with g | y
  · refine contained_error.trans ⟨fun h g' hg => ?_, fun h => h g rfl⟩
    rwa [← Except.error.inj hg]
  · exact iff_of_true (contained_ok y) nofun

/-- Whether a text can be the name of a backup. -/
def IsBackupName (name : String) : Prop :=
  name ≠ "" ∧ '/' ∉ name.toList ∧ '\\' ∉ name.toList ∧ Listed name

/-- Whether a name can be that of a backup whose manifest is amiss. -/
def Spoilt (a : Archive) (t : Tree) (name : String) : Prop :=
  IsBackupName name ∧ ∃ c, t.bytes? (a.manifestPlace name) = some c ∧ Amiss c

lemma IsBackupName.proper (h : IsBackupName name) : Path.Proper name ∧ '/' ∉ name.toList := by
  obtain ⟨hne, hslash, -, hdot⟩ := h
  refine ⟨⟨hne, ?_, ?_⟩, hslash⟩
  · rintro rfl
    exact hdot rfl
  · rintro rfl
    exact hdot rfl

/-- A backup has a directory if its name can be one. -/
lemma directory_cases (a : Archive) (w : World) (name : String) :
    (IsBackupName name ∧ runOn w (a.directory name) = (.ok (Path.join a.root name), w)) ∨
      ¬ IsBackupName name ∧ ∃ f, f.kind = .backupNotFound ∧ runOn w (a.directory name) = (.error f, w) := by
  have hname : (name.isEmpty || name.toList.any (fun c => c == '/' || c == '\\') || name.toList.head? == some '.') =
      true ↔ ¬ IsBackupName name := by
    simp only [IsBackupName, Listed, Bool.or_eq_true, String.isEmpty_iff, List.any_eq_true, beq_iff_eq]
    constructor
    · rintro ((h | ⟨c, hc, rfl | rfl⟩) | h) ⟨hne, hslash, hback, hdot⟩
      · exact hne h
      · exact hslash hc
      · exact hback hc
      · exact hdot h
    · intro h
      by_contra hnone
      obtain ⟨hleft, hdot⟩ := not_or.1 hnone
      obtain ⟨hne, hchars⟩ := not_or.1 hleft
      exact h ⟨hne, fun hc => hchars ⟨_, hc, .inl rfl⟩, fun hc => hchars ⟨_, hc, .inr rfl⟩, hdot⟩
  rw [Archive.directory, runOn_ite]
  split
  · rename_i h
    exact .inr ⟨hname.1 h, _, rfl, rfl⟩
  · rename_i h
    exact .inl ⟨not_not.1 (mt hname.2 h), rfl⟩

/-- A backup is found or not, and that is told, unless its manifest is amiss. -/
lemma find_contained_iff (ha : Path.Clear a.root) : Contained (runOn w (a.find name)).1 ↔ ¬ a.Spoilt w.tree name := by
  rcases directory_cases a w name with ⟨hid, hdir⟩ | ⟨hid, f, hkind, hdir⟩
  · obtain ⟨hfile, hread⟩ := runOn_manifest (w := w) ha hid.proper.1 hid.proper.2
    rw [Archive.find, runOn_bind_ok _ hdir, runOn_bind_ok _ (runOn_isFile _), hfile, runOn_ite]
    rcases hc : w.tree.bytes? (a.manifestPlace name) with _ | c
    · rw [if_neg (by simp)]
      refine iff_of_true (contained_error.2 rfl) ?_
      rintro ⟨-, c, hc', -⟩
      rw [hc] at hc'
      cases hc'
    · rw [Option.isSome_some, if_pos rfl, contained_told, hread c hc]
      by_cases hamiss : Amiss c
      · obtain ⟨f, hwild, hf⟩ := hamiss.ofBytes (Path.join a.root name)
        refine iff_of_false (fun h => ?_) (not_not.2 ⟨hid, c, hc, hamiss⟩)
        have hraw := h f hf
        rw [hwild.kind.1, if_neg Bool.false_ne_true, hwild.kind.2] at hraw
        cases hraw
      · refine iff_of_true (fun f hf => ?_) ?_
        · rcases ofBytes_of_not_amiss hamiss (Path.join a.root name) with ⟨b, hb⟩ | ⟨g, hg, hkind⟩
          · cases hb.symm.trans hf
          · obtain rfl := Except.error.inj (hg.symm.trans hf)
            rw [if_pos hkind, unreadable]
            split
            · rw [Fault.kind_wrap]
              rfl
            · rfl
        · rintro ⟨-, c', hc', hamiss'⟩
          obtain rfl := Option.some.inj (hc.symm.trans hc')
          exact hamiss hamiss'
  · rw [Archive.find, runOn_bind_error _ hdir]
    exact iff_of_true (contained_error.2 (by rw [hkind]; rfl)) fun h => hid h.1

/-- Checking archived files never fails. -/
lemma problems_contained (b : Backup) (dir : String) (fs : List String) : Contained (runOn w (problems b dir fs)).1 := by
  induction fs with
  | nil => exact contained_ok _
  | cons f fs ih =>
    have hrest : ∀ found : List String, Contained (runOn w (do return found ++ (← problems b dir fs))).1 := fun found =>
      (contained_bind fun _ _ _ => contained_pure _).2 ih
    rw [problems, runOn_bind_ok _ (runOn_isFile _), runOn_ite]
    split
    · rename_i hfile
      obtain ⟨c, hread, -⟩ := Tree.read_of_isFile hfile
      have hbytes : runOn w (readBytes (Path.join dir f)) = (.ok c, w) := by rw [runOn_readBytes, hread]
      rw [runOn_bind_ok _ hbytes, runOn_ite]
      split
      · exact hrest _
      · exact hrest _
    · exact hrest _

lemma verify_contained_iff (ha : Path.Clear a.root) :
    Contained (runOn w (a.verify name)).1 ↔ ¬ a.Spoilt w.tree name :=
  (contained_bind fun _ _ _ => problems_contained _ _ _).trans (find_contained_iff ha)

/-- Copying out fails with a fault that operations on files have, by induction on the files. -/
lemma copyOut_error {fs : List String} (h : runOn w (a.copyOut dir fs) = (.error f, w')) :
    (f.kind.isSystem || f.kind.isValue) = true := by
  induction fs generalizing w with
  | nil => cases (Prod.mk.inj h).1
  | cons g fs ih =>
    unfold copyOut at h
    rw [runOn_bind, runOn_get] at h
    dsimp only at h
    rcases of_bind_error h with h | ⟨target, u, -, h⟩
    · rw [runOn_ofResult] at h
      exact resolve_error (Prod.mk.inj h).1
    rcases of_bind_error h with h | ⟨_, u, -, h⟩
    · rw [runOn_ensureDirectories] at h
      exact (Tree.ensureDirectories_error (of_edit_error h).1).contained
    rcases of_bind_error h with h | ⟨_, u, -, h⟩
    · obtain ⟨path, hpath⟩ := Tree.copy_error (of_edit_error h).1
      exact hpath.contained
    · exact ih h

lemma restore_contained_iff (ha : Path.Clear a.root) :
    Contained (runOn w (a.restore name)).1 ↔ ¬ a.Spoilt w.tree name := by
  refine (contained_bind fun b u hfind => ?_).trans (find_contained_iff ha)
  have hu : u = w := (looks_find a name).eq hfind
  have hspared : ¬ a.Spoilt w.tree name := (find_contained_iff ha).1 (by rw [hfind]; exact contained_ok b)
  rw [hu]
  refine (contained_bind fun wrong v _ => ?_).2 ((verify_contained_iff ha).2 hspared)
  have hcopy : Contained (runOn v (told (fun k => k.isSystem || k.isValue)
      (.wrap .backup ("Restore of " ++ name ++ " failed")) (a.copyOut (Path.join b.path filesName) b.files))).1 := by
    refine contained_told.2 fun g hg => ?_
    rw [if_pos (copyOut_error (Prod.ext hg rfl)), Fault.kind_wrap]
    rfl
  rw [runOn_ite]
  split
  · exact (contained_bind fun _ _ _ => contained_pure _).2 hcopy
  · exact contained_error.2 rfl

/-! ### Making a backup -/

variable {b : Backup} {files : List String} {description : String}

lemma loaded_congr (ht : ∀ m, Listed m → t'.bytes? (a.manifestPlace m) = t.bytes? (a.manifestPlace m)) :
    a.loaded t' = a.loaded t := by
  funext n
  unfold loaded
  split
  · rfl
  · rename_i hn
    rw [ht n hn]

/-- Whether an archive is orderly depends on nothing but the manifests under listed names. -/
lemma Orderly.congr (h : a.Orderly t)
    (ht : ∀ m, Listed m → t'.bytes? (a.manifestPlace m) = t.bytes? (a.manifestPlace m)) : a.Orderly t' := by
  refine ⟨fun n hn c hc => h.sane n hn c (by rwa [← ht n hn]), ?_⟩
  rw [loaded_congr ht]
  exact h.comparable

lemma Orderly.next (ha : Path.Clear a.root) (h : a.Orderly w.tree) : ∃ s, runOn w a.nextSequence = (.ok s, w) :=
  ⟨_, runOn_bind_ok _ (h.list ha)⟩

lemma next_of_not_orderly (ha : Path.Clear a.root) (h : ¬ a.Orderly w.tree) :
    ∃ f, Wild f ∧ runOn w a.nextSequence = (.error f, w) := by
  obtain ⟨f, hwild, hf⟩ := list_of_not_orderly ha h
  exact ⟨f, hwild, runOn_bind_error _ hf⟩

/-- No staging directory lies on the way to the archive. -/
lemma Kept.staging_eq {m : String} (h : a.Kept t t' (a.stagingPlace m)) :
    t'.get? (a.stagingPlace m) = t.get? (a.stagingPlace m) := by
  refine h.resolve_right ?_
  rintro ⟨hup, -⟩
  have hlen := hup.length_le
  rw [stagingPlace, List.length_append, List.length_singleton] at hlen
  omega

lemma stagingPlace_beside {m name : String} (hne : m ≠ name) : ¬ a.stagingPlace name <+: a.stagingPlace m := by
  rw [stagingPlace, stagingPlace, List.prefix_append_right_inj]
  intro h
  have heq := congrArg String.toList (List.cons_prefix_cons.1 h).1
  rw [String.toList_append, String.toList_append, List.append_cancel_left_eq, String.toList_inj] at heq
  exact hne heq.symm

lemma placeOf_beside {m : String} {now : Instant} {n : ℕ} : ¬ a.placeOf (nameOf now n) <+: a.stagingPlace m := by
  rw [placeOf, stagingPlace, List.prefix_append_right_inj]
  intro h
  refine listed_nameOf now n ?_
  rw [(List.cons_prefix_cons.1 h).1, String.toList_append]
  rfl

/-- Whether no staging directory is left under a name, and what stood under the names of others stands there still. -/
structure Tidy (a : Archive) (name : String) (t t' : Tree) : Prop where
  own : t'.get? (a.stagingPlace name) ≠ some .directory
  others : ∀ m, m ≠ name → t'.get? (a.stagingPlace m) = t.get? (a.stagingPlace m)

/-- Copying into a new staging directory changes nothing outside it. -/
lemma inside_copied (ha : Path.Clear a.root) {now : Instant} {n : ℕ} {r : Except Fault (List (String × String))}
    (hd : w.tree.newDirectories (Path.join (Path.join a.root (stagingMark ++ nameOf now n)) filesName) = .ok t)
    (hcopy : runOn { w with tree := t } (a.copyIn (Path.join (Path.join a.root (stagingMark ++ nameOf now n)) filesName)
      files) = (r, w')) : World.Inside (a.stagingPlace (nameOf now n)) w w' := by
  have hsites := sites_nameOf ha now n
  have hbelow : a.stagingPlace (nameOf now n) <+:
      Path.lexical (Path.join (Path.join a.root (stagingMark ++ nameOf now n)) filesName) := by
    rw [hsites.files.2]
    exact List.prefix_append _ _
  have hcopied := inside_copyIn (a := a) hsites.files.1 files { w with tree := t }
  rw [hcopy] at hcopied
  exact Trans.trans (inside_newDirectories hsites.files.1 hbelow hd) (hcopied.mono hbelow)

/-- A backup that is put together leaves no staging directory, and the archive is orderly. -/
lemma assemble_tidy (ha : Path.Clear a.root) {now : Instant} {n : ℕ}
    (h : runOn w (a.assemble now (nameOf now n) description files) = (.ok b, w')) :
    a.Orderly w.tree ∧ a.Tidy (nameOf now n) w.tree w'.tree := by
  obtain ⟨t, u, t', t'', hd, hcopy, hnext, -, ht', ht'', -, rfl⟩ :=
    assemble_steps (sites_nameOf ha now n).manifest.1.absolute h
  have hmoved := moved ha ht' ht''
  have hinside := inside_copied ha hd hcopy
  refine ⟨?_, ?_, fun m hm => ?_⟩
  · have horderly : a.Orderly u.tree := by
      by_contra hnot
      obtain ⟨f, -, hf⟩ := next_of_not_orderly ha hnot
      cases (Prod.mk.inj (hnext.symm.trans hf)).1
    exact horderly.congr fun m hm => (hinside.bytes? (manifestPlace_apart hm)).symm
  · have hgone := hmoved.gone []
    rw [List.append_nil] at hgone
    rw [hgone]
    exact nofun
  · rw [hmoved.outside _ (stagingPlace_beside hm) placeOf_beside]
    exact (kept_of_inside hinside (stagingPlace_beside hm)).staging_eq

/-- Once its files are copied, a backup is stopped by an archive that is not orderly, in its staging directory. -/
lemma assemble_stopped (description : String) (ha : Path.Clear a.root) {now : Instant} {n : ℕ} {ds : List (String × String)}
    (hnot : ¬ a.Orderly w.tree)
    (hd : w.tree.newDirectories (Path.join (Path.join a.root (stagingMark ++ nameOf now n)) filesName) = .ok t)
    (hcopy : runOn { w with tree := t } (a.copyIn (Path.join (Path.join a.root (stagingMark ++ nameOf now n)) filesName)
      files) = (.ok ds, w')) :
    ∃ f, Wild f ∧ runOn w (a.assemble now (nameOf now n) description files) = (.error f, w') ∧
      w'.tree.get? (a.stagingPlace (nameOf now n)) = some .directory := by
  have hsites := sites_nameOf ha now n
  have hinside := inside_copied ha hd hcopy
  obtain ⟨f, hwild, hf⟩ := next_of_not_orderly ha fun h =>
    hnot (h.congr fun m hm => (hinside.bytes? (manifestPlace_apart hm)).symm)
  have hmade : runOn w (edit (·.newDirectories (Path.join (Path.join a.root (stagingMark ++ nameOf now n)) filesName))) =
      (.ok (), { w with tree := t }) := runOn_edit_ok hd
  refine ⟨f, hwild, ?_, ?_⟩
  · unfold assemble
    dsimp only
    rw [runOn_bind_ok _ hmade, runOn_bind_ok _ hcopy, runOn_bind_error _ hf]
  · have hnew := (Tree.newDirectories_ok hsites.staging.1 (by decide) (by decide) hd).2
    rw [hsites.staging.2] at hnew
    exact (stays_copyIn hcopy).directories _ (Tree.get?_above (List.cons_ne_nil _ []) hnew)

/-- How a backup fails to be put together: with a fault that operations on files have, or since the archive is not
orderly. -/
lemma assemble_fails (ha : Path.Clear a.root) {now : Instant} {n : ℕ} {f : Fault}
    (h : runOn w (a.assemble now (nameOf now n) description files) = (.error f, w')) :
    (f.kind.isSystem || f.kind.isValue) = true ∧ World.Inside (a.stagingPlace (nameOf now n)) w w' ∨
      ¬ a.Orderly w.tree ∧ Wild f ∧ w'.tree.get? (a.stagingPlace (nameOf now n)) = some .directory := by
  by_cases horderly : a.Orderly w.tree
  · obtain ⟨hcontained, hin, -⟩ := assemble_error_of_next ha (fun v hv => (horderly.congr hv).next ha) h
    exact .inl ⟨hcontained, hin⟩
  have h' := h
  unfold assemble at h'
  rcases of_bind_error h' with h' | ⟨⟨⟩, u, hu, h'⟩
  · obtain ⟨hd, rfl⟩ := of_edit_error h'
    exact .inl ⟨(Tree.newDirectories_error hd).contained, refl w'⟩
  obtain ⟨t, hd, rfl⟩ := of_edit_ok hu
  rcases of_bind_error h' with h' | ⟨ds, v, hcopy, -⟩
  · exact .inl ⟨copyIn_error h', inside_copied ha hd h'⟩
  obtain ⟨g, hwild, hg, hdir⟩ := assemble_stopped description ha horderly hd hcopy
  obtain ⟨hfault, rfl⟩ := Prod.mk.inj (h.symm.trans hg)
  obtain rfl := Except.error.inj hfault
  exact .inr ⟨horderly, hwild, hdir⟩

/-- What is no directory is not discarded. -/
lemma runOn_discard_of_ne {m : String} (ha : Path.Clear a.root) (hm : Path.Proper m) (hslash : '/' ∉ m.toList)
    (h : w.tree.get? (a.placeOf m) ≠ some .directory) : (runOn w (discard (Path.join a.root m))).2 = w := by
  rw [discard, runOn_outcome_bind, runOn_pure, runOn_edit]
  rcases hr : w.tree.removeAll (Path.join a.root m) with f | t
  · rfl
  · have hthere := (Tree.removeAll_ok hr).1
    rw [(ha.child hm hslash).2] at hthere
    exact absurd hthere h

/-- No staging directory is left when it is discarded. -/
lemma discard_tidy (ha : Path.Clear a.root) (now : Instant) (n : ℕ) :
    a.Tidy (nameOf now n) w.tree (runOn w (discard (Path.join a.root (stagingMark ++ nameOf now n)))).2.tree := by
  obtain ⟨-, -, hmark, hslash⟩ := proper_nameOf now n
  have hplace : a.placeOf (stagingMark ++ nameOf now n) = a.stagingPlace (nameOf now n) := rfl
  by_cases hdir : w.tree.get? (a.stagingPlace (nameOf now n)) = some .directory
  · have hbytes : w.tree.bytes? (a.placeOf (stagingMark ++ nameOf now n)) = none := by
      rw [hplace, Tree.bytes?, hdir]
    have hafter := get?_discard ha hmark hslash hbytes
    rw [hplace] at hafter
    refine ⟨?_, fun m hm => ?_⟩
    · rw [hafter, if_pos List.prefix_rfl]
      exact (Option.some_ne_none _).symm
    · rw [hafter, if_neg (stagingPlace_beside hm)]
  · rw [runOn_discard_of_ne ha hmark hslash (by rwa [hplace])]
    exact ⟨hdir, fun _ _ => rfl⟩

lemma Tidy.of_kept {u : Tree} (ht : ∀ m, a.Kept t u (a.stagingPlace m)) (h : a.Tidy name u t') : a.Tidy name t t' :=
  ⟨h.own, fun m hm => (h.others m hm).trans (ht m).staging_eq⟩

/-- What was begun inside a staging directory is tidied up when that directory is discarded. -/
lemma discard_inside_tidy (ha : Path.Clear a.root) {now : Instant} {n : ℕ} {x : World}
    (hin : World.Inside (a.stagingPlace (nameOf now n)) w x)
    (hw' : w' = (runOn x (discard (Path.join a.root (stagingMark ++ nameOf now n)))).2) :
    a.Tidy (nameOf now n) w.tree w'.tree := by
  have htidy := discard_tidy (w := x) ha now n
  rw [hw']
  refine ⟨htidy.own, fun m hm => (htidy.others m hm).trans ?_⟩
  exact (kept_of_inside hin (stagingPlace_beside hm)).staging_eq

/-- A backup whose files can be copied is stopped by an archive that is not orderly, and its staging directory is left. -/
lemma create_stopped (files : List String) (description : String) (ha : Path.Clear a.root) {u : World}
    {ds : List (String × String)} (hnot : ¬ a.Orderly u.tree) (he : runOn w a.ensure = (.ok (), u))
    (hd : u.tree.newDirectories (Path.join (Path.join a.root (stagingMark ++ nameOf u.now (u.draws + 1))) filesName) =
      .ok t)
    (hcopy : runOn { u with draws := u.draws + 1, tree := t } (a.copyIn
      (Path.join (Path.join a.root (stagingMark ++ nameOf u.now (u.draws + 1))) filesName) (a.wanted u.here files)) =
      (.ok ds, w')) :
    ∃ f, Wild f ∧ runOn w (a.create files description) = (.error f, w') ∧
      w'.tree.get? (a.stagingPlace (nameOf u.now (u.draws + 1))) = some .directory := by
  obtain ⟨f, hwild, hf, hdir⟩ := assemble_stopped (w := { u with draws := u.draws + 1 }) description ha hnot hd hcopy
  refine ⟨f, hwild, ?_, hdir⟩
  rw [create, runOn_bind_ok _ he, runOn_bind, runOn_get]
  dsimp only
  rw [runOn_bind, runOn_draw]
  dsimp only
  rw [runOn_outcome_bind, hf]
  dsimp only
  rw [hwild.not_contained, if_neg Bool.false_ne_true, runOn_throw]

/-- How making a backup ends: the archive is orderly and the backup is there; or the fault is one of the store; or the
archive is not orderly, and the staging directory is left. -/
lemma create_ends (ha : Path.Clear a.root) {r : Except Fault Backup}
    (hr : runOn w (a.create files description) = (r, w')) :
    (a.Orderly w.tree ∧ (∃ b, r = .ok b) ∨
      ∃ f, r = .error f ∧ (f.kind = .backup ∨ f.kind = .value ∧ '\x00' ∈ a.root.toList)) ∧
      a.Tidy (nameOf w.now (w.draws + 1)) w.tree w'.tree ∨
    ¬ a.Orderly w.tree ∧ ∃ f, r = .error f ∧ Wild f ∧
      w'.tree.get? (a.stagingPlace (nameOf w.now (w.draws + 1))) = some .directory := by
  rcases create_cases hr with ⟨f, rfl, he⟩ | ⟨u, he, n, v, rfl, rfl, hend⟩
  · rcases ensure_cases ha he with ⟨t, hok, -⟩ | ⟨g, hg, rfl, hkind⟩
    · cases hok
    obtain rfl := Except.error.inj hg
    refine .inl ⟨.inr ⟨f, rfl, hkind⟩, fun hdir => ?_, fun _ _ => rfl⟩
    have hroot := ensure_there ha (Tree.get?_above (List.cons_ne_nil _ []) hdir)
    cases (Prod.mk.inj (hroot.symm.trans he)).1
  obtain ⟨t, -, rfl, hkept⟩ := (ensure_cases ha he).resolve_right fun ⟨_, hf, _⟩ => absurd hf nofun
  -- What lies in the archive is not touched when the archive is made ready.
  have hready : a.Orderly t ↔ a.Orderly w.tree :=
    ⟨fun h => h.congr fun m _ => (hkept _).bytes?.symm, fun h => h.congr fun m _ => (hkept _).bytes?⟩
  rcases hend with ⟨b, rfl, hb⟩ | ⟨f, x, hx, hfail⟩
  · obtain ⟨horderly, htidy⟩ := assemble_tidy ha hb
    exact .inl ⟨.inl ⟨hready.1 horderly, b, rfl⟩, htidy.of_kept fun m => hkept _⟩
  rcases assemble_fails ha hx with ⟨hcontained, hin⟩ | ⟨hnot, hwild, hdir⟩
  · rcases hfail with ⟨-, hr', hw'⟩ | ⟨huncontained, -⟩
    · refine .inl ⟨.inr ⟨_, hr', .inl (Fault.kind_wrap _ _ _)⟩, ?_⟩
      exact (discard_inside_tidy ha hin hw').of_kept fun m => hkept _
    · rw [hcontained] at huncontained
      cases huncontained
  · rcases hfail with ⟨hcontained, -⟩ | ⟨-, rfl, rfl⟩
    · rw [hwild.not_contained] at hcontained
      cases hcontained
    · exact .inr ⟨fun h => hnot (hready.2 h), f, rfl, hwild, hdir⟩

/-- **What cannot be read in an archive is contained** just where no manifest is amiss and the order of the backups can be
told. The archive can be listed if and only if it is orderly, and lists what can be read. A name leads to a backup or to a
fault of the store, when the backup is found, checked or restored, if and only if the manifest under it is not amiss. In an
orderly archive a backup is made or the fault is one of the store, unless no path can lead to the archive, and no staging
directory of it is left. In another one no backup is made, and the staging directory is left unless the fault is one of the
store. -/
theorem unreadable_contained_iff (w₀ w : World) (root workspace : String) :
    let a := Archive.at w₀.here root workspace
    ((∃ bs, (runOn w a.list).1 = .ok bs) ↔ a.Orderly w.tree) ∧
    (a.Orderly w.tree → runOn w a.list = (.ok (a.loadable w.tree), w)) ∧
    (∀ name, (Contained (runOn w (a.find name)).1 ↔ ¬ a.Spoilt w.tree name) ∧
      (Contained (runOn w (a.verify name)).1 ↔ ¬ a.Spoilt w.tree name) ∧
      (Contained (runOn w (a.restore name)).1 ↔ ¬ a.Spoilt w.tree name)) ∧
    ∀ files description r w', runOn w (a.create files description) = (r, w') →
      (a.Orderly w.tree ∧ (∃ b, r = .ok b) ∨
        ∃ f, r = .error f ∧ (f.kind = .backup ∨ f.kind = .value ∧ '\x00' ∈ a.root.toList)) ∧
        a.Tidy (nameOf w.now (w.draws + 1)) w.tree w'.tree ∨
      ¬ a.Orderly w.tree ∧ ∃ f, r = .error f ∧ Wild f ∧
        w'.tree.get? (a.stagingPlace (nameOf w.now (w.draws + 1))) = some .directory := by
  intro a
  have ha : Path.Clear a.root := (clear_at w₀ root workspace).1
  refine ⟨⟨?_, fun h => ⟨_, congrArg Prod.fst (h.list ha)⟩⟩, fun h => h.list ha, fun name => ?_,
    fun _ _ _ _ hr => create_ends ha hr⟩
  · rintro ⟨bs, hlist⟩
    by_contra hnot
    obtain ⟨f, -, hf⟩ := list_of_not_orderly ha hnot
    rw [hf] at hlist
    cases hlist
  · exact ⟨find_contained_iff ha, verify_contained_iff ha, restore_contained_iff ha⟩

/-! ### A manifest that is an empty list -/

/-- A workspace with a file in the directory of backups that is named like a manifest and holds an empty list. -/
def litter : World where
  tree := ((workshop.tree.put ["w", "b"] .directory).put ["w", "b", "x"] .directory).put
    ["w", "b", "x", "manifest.json"] (.file ⟨#[91, 93]⟩)

lemma amiss_litter : Amiss ⟨#[91, 93]⟩ := by
  have hs : Text.decode? ⟨#[91, 93]⟩ = some "[]" := by decide
  have hu : (unified "[]").toList = ['[', ']'] := by decide
  have hd : Json.read (unified "[]") = .ok (.list []) := by
    simp [Json.read, hu, Json.readValue, Json.skipGap, Json.isGap, Json.maxDepth, bind, Except.bind]
  exact .noMap hs hd fun _ h => by cases h

lemma spoilt_litter : shelf.Spoilt litter.tree "x" := by
  have hbytes : litter.tree.bytes? (shelf.manifestPlace "x") = some ⟨#[91, 93]⟩ := by decide
  have hlisted : Listed "x" := by unfold Listed; decide
  exact ⟨⟨by decide, by decide, by decide, hlisted⟩, _, hbytes, amiss_litter⟩

lemma not_orderly_litter : ¬ shelf.Orderly litter.tree := by
  obtain ⟨⟨-, -, -, hlisted⟩, c, hc, hamiss⟩ := spoilt_litter
  exact fun h => h.sane "x" hlisted c hc hamiss

/-- There is room for the next backup. -/
lemma vacant_litter : shelf.Vacant (nameOf litter.now (litter.draws + 1)) litter.tree := by
  refine ⟨?_, by decide, ?_, ?_⟩
  · rw [root_shelf]
    decide
  · rw [stagingPlace, root_shelf]
    decide
  · rw [placeOf, root_shelf]
    decide

/-- A list in the place of a manifest is not left out: nothing is listed, the fault of a search is none of the store, and a
backup that could not be made leaves its staging directory. -/
theorem not_contained_litter : (∃ f, runOn litter shelf.list = (.error f, litter)) ∧
    ¬ Contained (runOn litter (shelf.find "x")).1 ∧ ¬ Contained (runOn litter (shelf.verify "x")).1 ∧
    ¬ Contained (runOn litter (shelf.restore "x")).1 ∧
    ∃ f w', runOn litter (shelf.create [] "") = (.error f, w') ∧ f.kind.isBackup = false ∧
      w'.tree.get? (shelf.stagingPlace (nameOf litter.now (litter.draws + 1))) = some .directory := by
  obtain ⟨ha, -⟩ := clear_shelf
  have hready : runOn litter shelf.ensure = (.ok (), litter) := ensure_there ha (by decide)
  have hroom := vacant_litter.newDirectories ha
  refine ⟨?_, fun h => (find_contained_iff ha).1 h spoilt_litter,
    fun h => (verify_contained_iff ha).1 h spoilt_litter, fun h => (restore_contained_iff ha).1 h spoilt_litter, ?_⟩
  · obtain ⟨f, -, hf⟩ := list_of_not_orderly ha not_orderly_litter
    exact ⟨f, hf⟩
  · obtain ⟨f, hwild, hf, hdir⟩ := create_stopped [] "" ha not_orderly_litter hready hroom rfl
    exact ⟨f, _, hf, hwild.kind.2, hdir⟩

end Archive

end Ratchet
