import Ratchet.Fault
import Ratchet.Path

/-!
A file tree.

The tree maps places to files and directories. A place is the list of names that lead to it from
the root, which is always a directory. Names are proper and every entry stands in a directory, so a
tree that could not be on a disk cannot be built. Operations take paths as text, follow their
components as the system does (`..` leads out of a directory that is there, a file leads nowhere),
and answer a new tree or the system's refusal.
-/

namespace Ratchet

/-- A place in a file tree: the names that lead to it. -/
abbrev Place := List String

/-- Bytes are compared one by one. -/
instance (priority := 2000) bytesDecidableEq : DecidableEq ByteArray := ByteArray.instDecidableEq

/-- What stands at a place. -/
inductive Entry
  | file (bytes : ByteArray)
  | directory
  deriving DecidableEq

/-- The longest name that a place may have, in bytes. -/
def maxName : Nat := 255

/-- Whether a text can be the name of an entry. -/
def isName (n : String) : Bool :=
  n != "" && n != "." && n != ".." && !n.toList.contains '/' && !n.toList.contains '\x00' &&
    n.utf8ByteSize ≤ maxName

/-- What holds of the entries of a tree: places are distinct and have proper names, and each entry
stands in a directory. -/
structure Entries.Sound (es : List (Place × Entry)) : Prop where
  distinct : (es.map (·.1)).Nodup
  nonempty : ∀ x ∈ es, x.1 ≠ []
  named : ∀ x ∈ es, ∀ n ∈ x.1, isName n = true
  rooted : ∀ x ∈ es, x.1.dropLast ≠ [] → (x.1.dropLast, Entry.directory) ∈ es

/-- A file tree: entries that stand in one another from the root on. -/
structure Tree where
  entries : List (Place × Entry)
  sound : Entries.Sound entries

namespace Entries

/-- The entries with one set. -/
def put (es : List (Place × Entry)) (p : Place) (e : Entry) : List (Place × Entry) :=
  (p, e) :: es.filter (·.1 != p)

/-- Whether an entry can be set: its place has proper names and a directory to stand in, and nothing
stands in what becomes a file. -/
def admits (es : List (Place × Entry)) (p : Place) (e : Entry) : Bool :=
  !p.isEmpty && p.all isName && (p.dropLast.isEmpty || es.contains (p.dropLast, .directory)) &&
    (e == .directory || es.all fun x => x.1 == p || !p.isPrefixOf x.1)

/-- The entries without those at a place and below it. -/
def erase (es : List (Place × Entry)) (p : Place) : List (Place × Entry) :=
  es.filter fun x => !p.isPrefixOf x.1

/-- The entries with those at a place and below it moved to another place. -/
def move (es : List (Place × Entry)) (p q : Place) : List (Place × Entry) :=
  (es.filterMap fun x => if p.isPrefixOf x.1 then some (q ++ x.1.drop p.length, x.2) else none) ++
    erase (erase es p) q

/-- Whether entries can be moved: the target has proper names and a directory to stand in, and does not
lie below the source. -/
def moves (es : List (Place × Entry)) (p q : Place) : Bool :=
  !q.isEmpty && q.all isName && (q.dropLast.isEmpty || es.contains (q.dropLast, .directory)) &&
    (p == q || !p.isPrefixOf q)

theorem sound_nil : Sound [] := ⟨List.nodup_nil, nofun, nofun, nofun⟩

theorem mem_put {es : List (Place × Entry)} {p : Place} {e : Entry} {x : Place × Entry} :
    x ∈ put es p e ↔ x = (p, e) ∨ (x ∈ es ∧ x.1 ≠ p) := by
  simp [put, List.mem_filter]

theorem mem_erase {es : List (Place × Entry)} {p : Place} {x : Place × Entry} :
    x ∈ erase es p ↔ x ∈ es ∧ ¬ p <+: x.1 := by
  simp [erase, List.mem_filter, ← List.isPrefixOf_iff_prefix]

theorem dropLast_ne {p : Place} (h : p ≠ []) : p.dropLast ≠ p := by
  intro hp
  have hl := congrArg List.length hp
  have := List.length_pos_iff.2 h
  simp only [List.length_dropLast] at hl
  omega

theorem admits_iff {es : List (Place × Entry)} {p : Place} {e : Entry} :
    admits es p e = true ↔ p ≠ [] ∧ (∀ n ∈ p, isName n = true) ∧
      (p.dropLast ≠ [] → (p.dropLast, Entry.directory) ∈ es) ∧
      (e ≠ .directory → ∀ x ∈ es, p <+: x.1 → x.1 = p) := by
  have hparent : (p.dropLast = [] ∨ (p.dropLast, Entry.directory) ∈ es) ↔
      (p.dropLast ≠ [] → (p.dropLast, Entry.directory) ∈ es) := by
    by_cases h : p.dropLast = [] <;> simp [h]
  have hbelow : (e = .directory ∨ ∀ x ∈ es, x.1 = p ∨ ¬ p <+: x.1) ↔
      (e ≠ .directory → ∀ x ∈ es, p <+: x.1 → x.1 = p) := by
    by_cases h : e = .directory
    · simp [h]
    · simp only [h, false_or, not_false_eq_true, ne_eq, forall_const]
      exact forall_congr' fun x => forall_congr' fun _ => by
        by_cases hx : p <+: x.1 <;> simp [hx]
  rw [← hparent, ← hbelow]
  simp [admits, and_assoc, ← List.isPrefixOf_iff_prefix]

theorem moves_iff {es : List (Place × Entry)} {p q : Place} :
    moves es p q = true ↔ q ≠ [] ∧ (∀ n ∈ q, isName n = true) ∧
      (q.dropLast ≠ [] → (q.dropLast, Entry.directory) ∈ es) ∧ (p <+: q → p = q) := by
  have hparent : (q.dropLast = [] ∨ (q.dropLast, Entry.directory) ∈ es) ↔
      (q.dropLast ≠ [] → (q.dropLast, Entry.directory) ∈ es) := by
    by_cases h : q.dropLast = [] <;> simp [h]
  have hbelow : (p = q ∨ ¬ p <+: q) ↔ (p <+: q → p = q) := by
    by_cases h : p <+: q <;> simp [h]
  rw [← hparent, ← hbelow]
  simp [moves, and_assoc, ← List.isPrefixOf_iff_prefix]

theorem sound_put {es : List (Place × Entry)} {p : Place} {e : Entry} (h : Sound es)
    (ha : admits es p e = true) : Sound (put es p e) := by
  obtain ⟨hne, hnamed, hparent, hbelow⟩ := admits_iff.1 ha
  refine ⟨?_, ?_, ?_, ?_⟩
  · rw [put, List.map_cons, List.nodup_cons]
    refine ⟨?_, h.distinct.sublist (List.filter_sublist.map _)⟩
    simp
  · intro x hx
    rcases mem_put.1 hx with rfl | ⟨hx, -⟩
    · exact hne
    · exact h.nonempty x hx
  · intro x hx
    rcases mem_put.1 hx with rfl | ⟨hx, -⟩
    · exact hnamed
    · exact h.named x hx
  · intro x hx hx0
    rcases mem_put.1 hx with rfl | ⟨hx, hxp⟩
    · exact mem_put.2 (.inr ⟨hparent hx0, dropLast_ne hne⟩)
    · by_cases hd : x.1.dropLast = p
      · -- `x` stands in the entry that is set, which is then a directory
        have he : e = .directory := Classical.byContradiction fun he =>
          hxp (hbelow he x hx (hd ▸ List.dropLast_prefix x.1))
        exact mem_put.2 (.inl (by rw [hd, he]))
      · exact mem_put.2 (.inr ⟨h.rooted x hx hx0, hd⟩)

theorem sound_erase {es : List (Place × Entry)} {p : Place} (h : Sound es) : Sound (erase es p) := by
  refine ⟨h.distinct.sublist (List.filter_sublist.map _), fun x hx => h.nonempty x (mem_erase.1 hx).1,
    fun x hx => h.named x (mem_erase.1 hx).1, fun x hx hx0 => ?_⟩
  obtain ⟨hx, hp⟩ := mem_erase.1 hx
  exact mem_erase.2 ⟨h.rooted x hx hx0, fun hd => hp (hd.trans (List.dropLast_prefix x.1))⟩

theorem mem_move {es : List (Place × Entry)} {p q : Place} {x : Place × Entry} :
    x ∈ move es p q ↔ (∃ r, (p ++ r, x.2) ∈ es ∧ x.1 = q ++ r) ∨
      (x ∈ es ∧ ¬ p <+: x.1 ∧ ¬ q <+: x.1) := by
  rw [move, List.mem_append, mem_erase, mem_erase, and_assoc]
  refine or_congr ⟨fun hx => ?_, fun ⟨r, hr, hx⟩ => ?_⟩ Iff.rfl
  · obtain ⟨⟨y, e⟩, hy, hyx⟩ := List.mem_filterMap.1 hx
    split at hyx
    · rename_i hp
      obtain ⟨r, rfl⟩ := List.isPrefixOf_iff_prefix.1 hp
      obtain rfl := Option.some.inj hyx
      exact ⟨r, hy, by simp⟩
    · exact absurd hyx nofun
  · refine List.mem_filterMap.2 ⟨(p ++ r, x.2), hr, ?_⟩
    simp [← hx]

theorem sound_move {es : List (Place × Entry)} {p q : Place} (h : Sound es)
    (hm : moves es p q = true) : Sound (move es p q) := by
  obtain ⟨hne, hnamed, hparent, hbelow⟩ := moves_iff.1 hm
  have hp0 : p ≠ [] := fun hp => hne ((hbelow (hp ▸ List.nil_prefix)).symm.trans hp)
  refine ⟨?_, ?_, ?_, ?_⟩
  · rw [move, List.map_append, List.nodup_append]
    refine ⟨?_, (sound_erase (sound_erase h)).distinct, ?_⟩
    · rw [List.nodup_iff_pairwise_ne, List.pairwise_map]
      have hes := List.pairwise_map.1 (List.nodup_iff_pairwise_ne.1 h.distinct)
      refine hes.filterMap _ fun x y hxy x' hx' y' hy' => ?_
      simp only [Option.ite_none_right_eq_some, Option.some.injEq] at hx' hy'
      obtain ⟨⟨r, hr⟩, rfl⟩ := And.imp_left List.isPrefixOf_iff_prefix.1 hx'
      obtain ⟨⟨r', hr'⟩, rfl⟩ := And.imp_left List.isPrefixOf_iff_prefix.1 hy'
      intro heq
      rw [← hr, ← hr'] at hxy heq
      simp only [List.drop_left, List.append_cancel_left_eq] at heq
      exact hxy (by rw [heq])
    · intro a ha b hb hab
      obtain ⟨y, hy, rfl⟩ := List.mem_map.1 hb
      obtain ⟨x, hx, rfl⟩ := List.mem_map.1 ha
      obtain ⟨z, -, hz⟩ := List.mem_filterMap.1 hx
      simp only [Option.ite_none_right_eq_some, Option.some.injEq] at hz
      obtain ⟨-, rfl⟩ := hz
      exact (mem_erase.1 hy).2 (hab ▸ List.prefix_append q _)
  · intro x hx
    rcases mem_move.1 hx with ⟨r, -, hx⟩ | ⟨hx, -⟩
    · simp [hx, hne]
    · exact h.nonempty x hx
  · intro x hx n hn
    rcases mem_move.1 hx with ⟨r, hr, hx⟩ | ⟨hx, -⟩
    · rw [hx, List.mem_append] at hn
      exact hn.elim (hnamed n) fun hn => h.named _ hr n (by simp [hn])
    · exact h.named x hx n hn
  · intro x hx hx0
    rcases mem_move.1 hx with ⟨r, hr, hx⟩ | ⟨hx, hp, hq⟩
    · by_cases hr0 : r = []
      · -- the moved entry itself: its directory stays where it is
        rw [hr0, List.append_nil] at hx
        rw [hx] at hx0 ⊢
        refine mem_move.2 (.inr ⟨hparent hx0, fun hp => ?_, fun hq => ?_⟩)
        · have := hbelow (hp.trans (List.dropLast_prefix q))
          subst this
          exact dropLast_ne hne (List.IsPrefix.eq_of_length_le (List.dropLast_prefix p) hp.length_le)
        · exact dropLast_ne hne (List.IsPrefix.eq_of_length_le (List.dropLast_prefix q) hq.length_le)
      · rw [hx, List.dropLast_append_of_ne_nil hr0] at hx0 ⊢
        have hr' := h.rooted _ hr (by simp [List.dropLast_append_of_ne_nil hr0, hp0])
        rw [List.dropLast_append_of_ne_nil hr0] at hr'
        exact mem_move.2 (.inl ⟨r.dropLast, hr', rfl⟩)
    · refine mem_move.2 (.inr ⟨h.rooted x hx hx0, fun hd => hp ?_, fun hd => hq ?_⟩)
      · exact hd.trans (List.dropLast_prefix x.1)
      · exact hd.trans (List.dropLast_prefix x.1)

end Entries

namespace Tree

/-- A tree without anything but the root. -/
def empty : Tree := ⟨[], Entries.sound_nil⟩

/-- What stands at a place. -/
def get? (t : Tree) (p : Place) : Option Entry :=
  if p.isEmpty then some .directory else t.entries.lookup p

/-- The tree with an entry set, where that can be. -/
def put (t : Tree) (p : Place) (e : Entry) : Tree :=
  if h : Entries.admits t.entries p e = true then ⟨Entries.put t.entries p e, Entries.sound_put t.sound h⟩
  else t

/-- The tree without a place and everything below it. -/
def erase (t : Tree) (p : Place) : Tree := ⟨Entries.erase t.entries p, Entries.sound_erase t.sound⟩

/-- The tree with what stands at a place and below it moved to another place, where that can be. -/
def move (t : Tree) (p q : Place) : Tree :=
  if h : Entries.moves t.entries p q = true then ⟨Entries.move t.entries p q, Entries.sound_move t.sound h⟩
  else t

/-- Whether a file stands at a place. -/
def hasFile (t : Tree) (p : Place) : Bool :=
  match t.get? p with
  | some (.file _) => true
  | _ => false

/-- Whether a directory stands at a place. -/
def hasDirectory (t : Tree) (p : Place) : Bool := t.get? p == some .directory

/-- The bytes of the file at a place. -/
def bytes? (t : Tree) (p : Place) : Option ByteArray :=
  match t.get? p with
  | some (.file b) => some b
  | _ => none

/-- The places of all files below a place, seen from there, with their bytes. -/
def filesBelow (t : Tree) (p : Place) : List (Place × ByteArray) :=
  t.entries.filterMap fun (q, e) =>
    match e with
    | .file b => if p.isPrefixOf q && q != p then some (q.drop p.length, b) else none
    | .directory => none

/-- The names of the entries directly below a place, in ascending order. -/
def namesAt (t : Tree) (p : Place) : List String :=
  let names := t.entries.filterMap fun (q, _) =>
    if p.isPrefixOf q && q.length == p.length + 1 then q.getLast? else none
  names.mergeSort (· ≤ ·)

/-! ## Following paths -/

/-- Follows names from a place that has to be a directory. -/
def follow (t : Tree) (from_ : Place) : List String → Except SystemCause Place
  | [] => .ok from_
  | n :: r =>
    match t.get? from_ with
    | none => .error .noEntry
    | some (.file _) => .error .notDirectory
    | some .directory =>
      if n == "" || n == "." then t.follow from_ r
      else if n == ".." then t.follow from_.dropLast r
      else if maxName < n.utf8ByteSize then .error .nameTooLong
      else t.follow (from_ ++ [n]) r

/-- The place that an absolute path leads to; nothing may stand there yet. -/
def place (t : Tree) (path : String) : Except SystemCause Place :=
  if path.isEmpty then .error .noEntry else t.follow [] (Path.components path)

/-- What stands at the end of a path. -/
def stat (t : Tree) (path : String) : Except SystemCause (Place × Entry) := do
  let p ← t.place path
  match t.get? p with
  | some e => return (p, e)
  | none => .error .noEntry

/-- Whether something stands at the end of a path. -/
def pathExists (t : Tree) (path : String) : Bool := (t.stat path).isOk

/-- Whether a file stands at the end of a path. -/
def isFile (t : Tree) (path : String) : Bool :=
  match t.stat path with
  | .ok (_, .file _) => true
  | _ => false

/-- Whether a directory stands at the end of a path. -/
def isDirectory (t : Tree) (path : String) : Bool :=
  match t.stat path with
  | .ok (_, .directory) => true
  | _ => false

/-- A refusal about a path; a path with the character zero is no path at all. -/
def about {α : Type} (path : String) (r : Except SystemCause α) : Except Fault α :=
  if path.toList.contains '\x00' then .error .zeroInPath
  else match r with
    | .ok a => .ok a
    | .error c => .error (.system c path)

/-! ## Operations -/

/-- The bytes of a file. -/
def read (t : Tree) (path : String) : Except Fault ByteArray :=
  about path do
    match ← t.stat path with
    | (_, .file b) => return b
    | (_, .directory) => .error .isDirectory

/-- The place at which a file may be written. -/
def writable (t : Tree) (path : String) : Except SystemCause Place := do
  let p ← t.place path
  match t.get? p with
  | some (.file _) => return p
  | some .directory => .error .isDirectory
  | none =>
    match t.get? p.dropLast with
    | some .directory => return p
    | some (.file _) => .error .notDirectory
    | none => .error .noEntry

/-- The tree with a file written. -/
def write (t : Tree) (path : String) (b : ByteArray) : Except Fault Tree :=
  about path do return t.put (← t.writable path) (.file b)

/-- The tree with one new directory. -/
def makeDirectory (t : Tree) (path : String) : Except Fault Tree :=
  about path do
    let p ← t.place path
    match t.get? p with
    | some _ => .error .exists
    | none =>
      match t.get? p.dropLast with
      | some .directory => return t.put p .directory
      | some (.file _) => .error .notDirectory
      | none => .error .noEntry

/-- The tree with a directory and all that lead to it. With `again`, a directory that is there
already is no refusal. -/
def makeDirectories (again : Bool) (fuel : Nat) (path : String) (t : Tree) : Except Fault Tree :=
  match fuel with
  | 0 => .ok t
  | fuel + 1 => do
    let (head, tail) :=
      let (h, n) := Path.splitLast path
      if n.isEmpty then Path.splitLast h else (h, n)
    let (t, done) ←
      if !head.isEmpty && !tail.isEmpty && !t.pathExists head then
        match makeDirectories again fuel head t with
        | .ok t => .ok (t, tail == ".")
        | .error f => if f.kind == .system .exists then .ok (t, tail == ".") else .error f
      else .ok (t, false)
    if done then return t
    else
      match t.makeDirectory path with
      | .ok t => return t
      | .error f => if again && f.kind.isSystem && t.isDirectory path then return t else .error f

/-- The tree with a directory and all that lead to it, whether or not it is there already. -/
def ensureDirectories (t : Tree) (path : String) : Except Fault Tree :=
  t |> makeDirectories true (path.length + 1) path

/-- The tree with a new directory and all that lead to it. -/
def newDirectories (t : Tree) (path : String) : Except Fault Tree :=
  t |> makeDirectories false (path.length + 1) path

/-- The tree without a file. -/
def remove (t : Tree) (path : String) : Except Fault Tree :=
  about path do
    match ← t.stat path with
    | (p, .file _) => return t.erase p
    | (_, .directory) => .error .isDirectory

/-- The tree without a directory and everything below it. -/
def removeAll (t : Tree) (path : String) : Except Fault Tree :=
  about path do
    match ← t.stat path with
    | (p, .directory) => return t.erase p
    | (_, .file _) => .error .notDirectory

/-- The tree with a directory moved to another place, where an empty directory may stand. -/
def rename (t : Tree) (source target : String) : Except Fault Tree :=
  let r : Except SystemCause Tree := do
    let (p, e) ← t.stat source
    let q ← t.place target
    match t.get? q.dropLast with
    | none => .error .noEntry
    | some (.file _) => .error .notDirectory
    | some .directory =>
      match t.get? q, e with
      | some (.file _), .directory => .error .notDirectory
      | some .directory, .file _ => .error .isDirectory
      | some .directory, .directory =>
        if (t.namesAt q).isEmpty then pure () else .error .notEmpty
      | _, _ => pure ()
      if p != q && p.isPrefixOf q then .error .invalid else return t.move p q
  match r with
  | .ok t => .ok t
  | .error c => .error (.systemPair c source target)

/-- The tree with a file's bytes copied to another path; a directory there takes the file in. -/
def copy (t : Tree) (source target : String) : Except Fault Tree := do
  let target := if t.isDirectory target then Path.join target (Path.name source) else target
  let same := match t.stat source, t.stat target with
    | .ok (p, _), .ok (q, _) => p == q
    | _, _ => false
  if same then .error (.sameFile source target)
  else
    let b ← t.read source
    t.write target b

end Tree

end Ratchet
