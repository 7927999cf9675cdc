import Mathlib.Data.List.Lex
import Mathlib.Data.Prod.Lex
import Mathlib.Data.String.Basic
import Mathlib.Tactic
import Ratchet.Proofs.Tree.Children
import Ratchet.Proofs.Workspace

/-!
What a walk lists, and in which order.

A walk lists the files that it reaches, each once: in every directory first its own files and then those of its
subdirectories, each in the order of the names. `places_eq_tour` says that this is the order of going from directory to
directory. It is not always that of the paths, in which a directory's name has a slash behind it: `ascending_iff` says
when it is.
-/

namespace Ratchet.Workspace

variable {t : Tree} {root : String} {base : Place} {extra : List String} {c p q r s : Place} {m n : String}

/-! ### The order of a walk -/

/-- What a walk orders places by: the directory, name by name, and then the name in it. -/
def key (p : Place) : List String ×ₗ String := toLex (p.dropLast, p.getLastD "")

lemma namesBefore_iff {as bs : List String} : namesBefore as bs = true ↔ as ≤ bs := by
  induction as generalizing bs with
  | nil => exact iff_of_true rfl (not_lt.1 (List.not_lt_nil bs))
  | cons a as ih =>
    cases bs with
    | nil => exact iff_of_false Bool.false_ne_true (not_le.2 (List.nil_lt_cons a as))
    | cons b bs =>
      rw [namesBefore, Bool.or_eq_true, Bool.and_eq_true, beq_iff_eq, decide_eq_true_eq, ih, le_iff_lt_or_eq,
        le_iff_lt_or_eq, List.cons_lt_cons_iff, List.cons.injEq]
      tauto

lemma walkBefore_iff : walkBefore p q = true ↔ key p ≤ key q := by
  rw [walkBefore, key, key, Prod.Lex.toLex_le_toLex]
  by_cases h : p.dropLast = q.dropLast
  · rw [if_pos (beq_iff_eq.2 h), decide_eq_true_eq]
    exact ⟨fun hle => .inr ⟨h, hle⟩, fun hle => (hle.resolve_left fun hlt => hlt.ne h).2⟩
  · rw [if_neg (by simpa using h), namesBefore_iff]
    exact ⟨fun hle => .inl (lt_of_le_of_ne hle h), fun hle => (hle.resolve_right fun heq => h heq.1).le⟩

lemma key_concat (c : Place) (n : String) : key (c ++ [n]) = toLex (c, n) := by
  rw [key, List.dropLast_concat, List.getLastD_concat]

/-- Only one place stands in a directory with a name. -/
lemma key_injective (hp : p ≠ []) (hq : q ≠ []) (h : key p = key q) : p = q := by
  rw [← List.dropLast_concat_getLast hp, ← List.dropLast_concat_getLast hq, key_concat, key_concat] at h
  obtain ⟨hdir, hname⟩ := Prod.mk.inj (toLex.injective h)
  rw [← List.dropLast_concat_getLast hp, ← List.dropLast_concat_getLast hq, hdir, hname]

/-- What lies in a directory comes before what lies further below. -/
lemma key_lt_below (c : Place) (n : String) (hs : s ≠ []) : key (c ++ [n]) < key (c ++ m :: s) := by
  rw [key_concat, key, Prod.Lex.toLex_lt_toLex, List.dropLast_append_of_ne_nil (List.cons_ne_nil m s),
    List.dropLast_cons_of_ne_nil hs]
  refine .inl ?_
  conv_lhs => rw [← List.append_nil c]
  exact List.append_left_lt (List.nil_lt_cons m _)

/-- What lies below two directories comes in the order of their names. -/
lemma key_lt_beside (c : Place) (hr : r ≠ []) (hs : s ≠ []) (h : n < m) : key (c ++ n :: r) < key (c ++ m :: s) := by
  rw [key, key, Prod.Lex.toLex_lt_toLex, List.dropLast_append_of_ne_nil (List.cons_ne_nil m s),
    List.dropLast_append_of_ne_nil (List.cons_ne_nil n r), List.dropLast_cons_of_ne_nil hs,
    List.dropLast_cons_of_ne_nil hr]
  exact .inl (List.append_left_lt (List.cons_lt_cons_iff.2 (.inl h)))

lemma key_concat_lt (c : Place) (h : n < m) : key (c ++ [n]) < key (c ++ [m]) := by
  rw [key_concat, key_concat, Prod.Lex.toLex_lt_toLex]
  exact .inr ⟨rfl, h⟩

/-! ### Going from directory to directory -/

/-- The names of the files directly at a place, in ascending order. -/
def filesAt (t : Tree) (p : Place) : List String := (t.namesAt p).filter fun n => t.hasFile (p ++ [n])

/-- The names of the directories directly at a place, in ascending order. -/
def directoriesAt (t : Tree) (p : Place) : List String := (t.namesAt p).filter fun n => t.hasDirectory (p ++ [n])

/-- The files of a directory, and after them those of each of its directories that is not left out; nothing is left out
further down but what is left out everywhere. No more than `depth` levels are entered. -/
def tour (t : Tree) (base : Place) : Nat → List String → Place → List Place
  | 0, _, _ => []
  | depth + 1, leftOut, p =>
    (filesAt t (base ++ p)).map (fun n => p ++ [n]) ++
      ((directoriesAt t (base ++ p)).filter (· ∉ leftOut)).flatMap fun n => tour t base depth vendorNames (p ++ [n])

lemma mem_filesAt : n ∈ filesAt t p ↔ ∃ b, t.get? (p ++ [n]) = some (.file b) := by
  rw [filesAt, List.mem_filter, Tree.mem_namesAt, Tree.hasFile_iff]
  exact ⟨fun h => h.2, fun ⟨b, hb⟩ => ⟨⟨_, hb⟩, b, hb⟩⟩

lemma mem_directoriesAt : n ∈ directoriesAt t p ↔ t.get? (p ++ [n]) = some .directory := by
  rw [directoriesAt, List.mem_filter, Tree.mem_namesAt, Tree.hasDirectory, beq_iff_eq]
  exact ⟨fun h => h.2, fun h => ⟨⟨_, h⟩, h⟩⟩

/-- Names are listed in ascending order. -/
lemma pairwise_namesAt (t : Tree) (p : Place) : (t.namesAt p).Pairwise (· < ·) := by
  have hsorted : (t.namesAt p).Pairwise fun m n => decide (m ≤ n) = true :=
    List.pairwise_mergeSort (fun a b c hab hbc => by
      rw [decide_eq_true_eq] at *
      exact hab.trans hbc) (fun a b => by simpa using le_total a b) _
  exact (hsorted.and (t.nodup_namesAt p)).imp fun h => lt_of_le_of_ne (of_decide_eq_true h.1) h.2

/-- What a tour lists: the files on the way to which no directory is left out. -/
lemma mem_tour {depth : Nat} {leftOut : List String} : q ∈ tour t base depth leftOut p ↔
    ∃ r, q = p ++ r ∧ r ≠ [] ∧ r.length ≤ depth ∧ (∃ b, t.get? (base ++ p ++ r) = some (.file b)) ∧
      (∀ n ∈ r.dropLast.head?, n ∉ leftOut) ∧ ∀ n ∈ r.dropLast.tail, n ∉ vendorNames := by
  induction depth generalizing leftOut p with
  | zero =>
    refine iff_of_false List.not_mem_nil ?_
    rintro ⟨r, -, hne, hlen, -⟩
    exact hne (List.length_eq_zero_iff.1 (Nat.le_zero.1 hlen))
  | succ depth ih =>
    rw [tour, List.mem_append, List.mem_map, List.mem_flatMap]
    constructor
    · rintro (⟨n, hn, rfl⟩ | ⟨n, hn, hq⟩)
      · exact ⟨[n], rfl, List.cons_ne_nil n [], Nat.succ_le_succ (Nat.zero_le _), mem_filesAt.1 hn, nofun, nofun⟩
      · obtain ⟨-, hleft⟩ := List.mem_filter.1 hn
        obtain ⟨r, rfl, hne, hlen, hfile, htop, hdirs⟩ := ih.1 hq
        refine ⟨n :: r, List.append_assoc _ _ _, List.cons_ne_nil n r, Nat.succ_le_succ hlen, ?_, ?_, ?_⟩
        · simpa only [List.append_assoc, List.singleton_append] using hfile
        · rw [List.dropLast_cons_of_ne_nil hne]
          simpa using hleft
        · rw [List.dropLast_cons_of_ne_nil hne, List.tail_cons]
          intro m hm
          rcases hd : r.dropLast with _ | ⟨top, dirs⟩
          · rw [hd] at hm
            exact absurd hm List.not_mem_nil
          · rw [hd] at hm htop hdirs
            rcases List.mem_cons.1 hm with rfl | hm
            · exact htop m rfl
            · exact hdirs m hm
    · rintro ⟨_ | ⟨n, r⟩, rfl, hne, hlen, ⟨b, hb⟩, htop, hdirs⟩
      · exact absurd rfl hne
      · by_cases hr : r = []
        · rw [hr] at hb ⊢
          exact .inl ⟨n, mem_filesAt.2 ⟨b, hb⟩, rfl⟩
        · rw [List.append_cons] at hb
          rw [List.dropLast_cons_of_ne_nil hr] at htop hdirs
          refine .inr ⟨n, List.mem_filter.2 ⟨mem_directoriesAt.2 (Tree.get?_above hr hb), ?_⟩, ?_⟩
          · simpa using htop n rfl
          · refine ih.2 ⟨r, List.append_cons _ _ _, hr, Nat.le_of_succ_le_succ hlen, ⟨b, ?_⟩, fun m hm => ?_, fun m hm => ?_⟩
            · rwa [← List.append_assoc]
            · exact hdirs m (List.mem_of_mem_head? hm)
            · exact hdirs m (List.mem_of_mem_tail hm)

/-- A tour lists places in the order of a walk. -/
lemma pairwise_tour (t : Tree) (base : Place) (depth : Nat) (leftOut : List String) (p : Place) :
    (tour t base depth leftOut p).Pairwise fun q q' => key q < key q' := by
  induction depth generalizing leftOut p with
  | zero => exact List.Pairwise.nil
  | succ depth ih =>
    have hnames := pairwise_namesAt t (base ++ p)
    rw [tour, List.pairwise_append]
    refine ⟨?_, ?_, ?_⟩
    · exact List.pairwise_map.2 ((hnames.filter _).imp (key_concat_lt p))
    · rw [List.pairwise_flatMap]
      refine ⟨fun n _ => ih _ _, ((hnames.filter _).filter _).imp fun {n m} hlt q hq q' hq' => ?_⟩
      obtain ⟨r, rfl, hr, -⟩ := mem_tour.1 hq
      obtain ⟨s, rfl, hs, -⟩ := mem_tour.1 hq'
      rw [List.append_assoc, List.append_assoc]
      exact key_lt_beside p hr hs hlt
    · intro q hq q' hq'
      obtain ⟨n, -, rfl⟩ := List.mem_map.1 hq
      obtain ⟨m, -, hq'⟩ := List.mem_flatMap.1 hq'
      obtain ⟨s, rfl, hs, -⟩ := mem_tour.1 hq'
      rw [List.append_assoc]
      exact key_lt_below p n hs

/-- A place is no deeper than there are entries, since all places above it are there. -/
lemma length_le_entries {e : Entry} (h : t.get? q = some e) : q.length ≤ t.entries.length := by
  have habove : ∀ k < q.length, ∃ e, (q.take (k + 1), e) ∈ t.entries := by
    intro k hk
    have hne : q.take (k + 1) ≠ [] := by
      rw [ne_eq, List.take_eq_nil_iff, not_or]
      exact ⟨Nat.succ_ne_zero k, List.ne_nil_of_length_pos (Nat.zero_lt_of_lt hk)⟩
    by_cases hall : q.drop (k + 1) = []
    · rw [← List.take_append_drop (k + 1) q, hall, List.append_nil] at h
      exact ⟨e, (Tree.get?_eq_some hne).1 h⟩
    · rw [← List.take_append_drop (k + 1) q] at h
      exact ⟨_, (Tree.get?_eq_some hne).1 (Tree.get?_above hall h)⟩
  have hsub : (List.range q.length).map (fun k => q.take (k + 1)) ⊆ t.entries.map (·.1) := by
    intro p hp
    obtain ⟨k, hk, rfl⟩ := List.mem_map.1 hp
    obtain ⟨e, he⟩ := habove k (List.mem_range.1 hk)
    exact List.mem_map.2 ⟨_, he, rfl⟩
  have hnodup : ((List.range q.length).map fun k => q.take (k + 1)).Nodup := by
    refine List.nodup_range.map_on fun k hk j hj hkj => ?_
    have := congrArg List.length hkj
    have := List.mem_range.1 hk
    have := List.mem_range.1 hj
    simp only [List.length_take] at *
    omega
  simpa using (List.subperm_of_subset hnodup hsub).length_le

lemma nodup_filesBelow (t : Tree) (p : Place) : ((t.filesBelow p).map (·.1)).Nodup := by
  have hes := List.pairwise_map.1 (List.nodup_iff_pairwise_ne.1 t.sound.distinct)
  rw [List.nodup_iff_pairwise_ne, List.pairwise_map, Tree.filesBelow]
  refine hes.filterMap _ fun x y hxy a ha b hb hab => hxy ?_
  obtain ⟨x, c | _⟩ := x
  · obtain ⟨y, c' | _⟩ := y
    · simp only [Option.ite_none_right_eq_some, Bool.and_eq_true, List.isPrefixOf_iff_prefix, Option.some.injEq] at ha hb
      obtain ⟨⟨⟨r, rfl⟩, -⟩, rfl⟩ := ha
      obtain ⟨⟨⟨s, rfl⟩, -⟩, rfl⟩ := hb
      simpa using hab
    · cases hb
  · cases ha

lemma nodup_places (t : Tree) (extra : List String) (base : Place) : (places t extra base).Nodup := by
  rw [places, List.nodup_mergeSort]
  exact (nodup_filesBelow t base).filter _

lemma pairwise_places (t : Tree) (extra : List String) (base : Place) :
    (places t extra base).Pairwise fun q q' => key q ≤ key q' := by
  have hsorted : (places t extra base).Pairwise fun q q' => walkBefore q q' = true := by
    refine List.pairwise_mergeSort (fun a b c hab hbc => ?_) (fun a b => ?_) _
    · rw [walkBefore_iff] at *
      exact hab.trans hbc
    · rw [Bool.or_eq_true, walkBefore_iff, walkBefore_iff]
      exact le_total _ _
  exact hsorted.imp walkBefore_iff.1

/-- **A walk goes from directory to directory.** -/
theorem places_eq_tour (t : Tree) (extra : List String) (base : Place) :
    places t extra base = tour t base t.entries.length (vendorNames ++ generatedNames ++ extra) [] := by
  have htour := pairwise_tour t base t.entries.length (vendorNames ++ generatedNames ++ extra) []
  have hmem : ∀ q, q ∈ places t extra base ↔
      q ∈ tour t base t.entries.length (vendorNames ++ generatedNames ++ extra) [] := by
    intro q
    rw [mem_places, mem_tour, reaches_iff]
    constructor
    · rintro ⟨hne, ⟨hvendor, htop⟩, b, hb⟩
      refine ⟨q, rfl, hne, ?_, ⟨b, by rwa [List.append_nil]⟩, fun n hn => ?_, fun n hn => ?_⟩
      · have := length_le_entries hb
        rw [List.length_append] at this
        omega
      · have := hvendor n (List.mem_of_mem_head? hn)
        have := htop n hn
        simp [*]
      · exact hvendor n (List.mem_of_mem_tail hn)
    · rintro ⟨r, rfl, hne, -, ⟨b, hb⟩, htop, hdirs⟩
      rw [List.append_nil] at hb
      refine ⟨hne, ⟨fun n hn => ?_, fun n hn => ?_⟩, b, hb⟩
      · rcases hd : q.dropLast with _ | ⟨top, dirs⟩
        · rw [hd] at hn
          exact absurd hn List.not_mem_nil
        · rw [hd] at hn htop hdirs
          rcases List.mem_cons.1 hn with rfl | hn
          · have := htop n rfl
            simp only [List.mem_append, not_or] at this
            exact this.1.1
          · exact hdirs n hn
      · have := htop n hn
        simp only [List.mem_append, not_or] at this
        exact ⟨this.1.2, this.2⟩
  refine List.Perm.eq_of_pairwise (fun q q' hq hq' hle hge => ?_) (pairwise_places t extra base) (htour.imp le_of_lt)
    ((List.perm_ext_iff_of_nodup (nodup_places t extra base) ?_).2 hmem)
  · exact key_injective (mem_places.1 hq).1 (mem_places.1 ((hmem q').2 hq')).1 (le_antisymm hle hge)
  · exact List.nodup_iff_pairwise_ne.2 (htour.imp fun h heq => h.ne (congrArg key heq))

/-! ### The order of paths -/

/-- Two places of which neither lies below the other part somewhere. -/
lemma exists_fork (hp : ¬ p <+: q) (hq : ¬ q <+: p) :
    ∃ c n r m s, p = c ++ n :: r ∧ q = c ++ m :: s ∧ n ≠ m := by
  induction p generalizing q with
  | nil => exact absurd List.nil_prefix hp
  | cons n p ih =>
    cases q with
    | nil => exact absurd List.nil_prefix hq
    | cons m q =>
      by_cases h : n = m
      · rw [h, List.prefix_cons_inj] at hp hq
        obtain ⟨c, k, r, l, s, rfl, rfl, hne⟩ := ih hp hq
        exact ⟨m :: c, k, r, l, s, by rw [h, List.cons_append], rfl, hne⟩
      · exact ⟨[], n, p, m, q, rfl, rfl, h⟩

/-- How a name stands in a path before what lies below it. -/
def marked (n : String) (r : Place) : String := if r = [] then n else n ++ "/"

/-- Texts that part before a slash compare as they do with nothing behind it. -/
lemma append_lt_append_iff {a b x y x' y' : List Char} (ha : '/' ∉ a) (hb : '/' ∉ b) (hab : a ≠ b)
    (hx : x = [] ∧ x' = [] ∨ ∃ u u', x = '/' :: u ∧ x' = '/' :: u')
    (hy : y = [] ∧ y' = [] ∨ ∃ v v', y = '/' :: v ∧ y' = '/' :: v') : a ++ x < b ++ y ↔ a ++ x' < b ++ y' := by
  induction a generalizing b with
  | nil =>
    obtain ⟨d, b, rfl⟩ := List.exists_cons_of_ne_nil (Ne.symm hab)
    have hd : '/' ≠ d := fun h => hb (h ▸ List.mem_cons_self)
    rcases hx with ⟨rfl, rfl⟩ | ⟨u, u', rfl, rfl⟩
    · simp
    · simp [List.cons_lt_cons_iff, hd]
  | cons c a ih =>
    have hc : c ≠ '/' := fun h => ha (h ▸ List.mem_cons_self)
    cases b with
    | nil =>
      rcases hy with ⟨rfl, rfl⟩ | ⟨v, v', rfl, rfl⟩
      · simp
      · simp [List.cons_lt_cons_iff, hc]
    | cons d b =>
      rw [List.cons_append, List.cons_append, List.cons_append, List.cons_append, List.cons_lt_cons_iff,
        List.cons_lt_cons_iff]
      refine or_congr_right (and_congr_right fun hcd => ?_)
      exact ih (fun h => ha (List.mem_cons_of_mem c h)) (fun h => hb (List.mem_cons_of_mem d h))
        fun h => hab (by rw [hcd, h])

/-- A path that starts with a name goes on with nothing or with a slash, as the marked name does. -/
lemma toList_ofComponents_cons (n : String) (r : Place) : ∃ x x', (Path.ofComponents (n :: r)).toList = n.toList ++ x ∧
    (marked n r).toList = n.toList ++ x' ∧ (x = [] ∧ x' = [] ∨ ∃ u u', x = '/' :: u ∧ x' = '/' :: u') := by
  rw [Path.ofComponents, String.toList_ofList, marked]
  rcases r with _ | ⟨k, r⟩
  · rw [if_pos rfl]
    exact ⟨[], [], (List.append_nil _).symm, (List.append_nil _).symm, .inl ⟨rfl, rfl⟩⟩
  · rw [if_neg (List.cons_ne_nil k r), String.toList_append]
    refine ⟨'/' :: Text.joinWith ['/'] ((k :: r).map String.toList), ['/'], ?_, rfl, .inr ⟨_, _, rfl, rfl⟩⟩
    simp [Text.joinWith]

lemma append_lt_append_left_iff (a x y : List Char) : a ++ x < a ++ y ↔ x < y := by
  induction a with
  | nil => exact Iff.rfl
  | cons c a ih => simp [ih]

/-- Paths compare as the names do at which they part. -/
lemma ofComponents_lt_iff (hn : '/' ∉ n.toList) (hm : '/' ∉ m.toList) (hne : n ≠ m) :
    Path.ofComponents (c ++ n :: r) < Path.ofComponents (c ++ m :: s) ↔ marked n r < marked m s := by
  have hcut : Path.ofComponents (c ++ n :: r) < Path.ofComponents (c ++ m :: s) ↔
      Path.ofComponents (n :: r) < Path.ofComponents (m :: s) := by
    by_cases hc : c = []
    · rw [hc, List.nil_append, List.nil_append]
    · have hsplit : ∀ k (q : Place), (Path.ofComponents (c ++ k :: q)).toList =
          Text.joinWith ['/'] (c.map String.toList) ++ ['/'] ++ (Path.ofComponents (k :: q)).toList := by
        intro k q
        rw [Path.ofComponents, Path.ofComponents, String.toList_ofList, String.toList_ofList, List.map_append]
        exact Text.joinWith_append ['/'] (by simpa using hc) (by simp)
      rw [String.lt_iff_toList_lt, String.lt_iff_toList_lt, hsplit, hsplit, append_lt_append_left_iff]
  obtain ⟨x, x', hx, hx', hxx⟩ := toList_ofComponents_cons n r
  obtain ⟨y, y', hy, hy', hyy⟩ := toList_ofComponents_cons m s
  rw [hcut, String.lt_iff_toList_lt, String.lt_iff_toList_lt, hx, hx', hy, hy']
  exact append_lt_append_iff hn hm (fun h => hne (String.toList_inj.1 h)) hxx hyy

/-! ### What a walk lists -/

/-- The files that a walk of a directory is to list: those on the way to which there is no directory of foreign packages
or of version control, and at the top none that is made from the sources or left out besides. -/
structure Walked (t : Tree) (extra : List String) (root : String) (q : Place) : Prop where
  below : q ≠ []
  file : ∃ p b, t.stat root = .ok (p, .directory) ∧ t.get? (p ++ q) = some (.file b)
  vendor : ∀ n ∈ q.dropLast, n ∉ vendorNames
  top : ∀ n ∈ q.dropLast.head?, n ∉ generatedNames ∧ n ∉ extra

/-- A directory holds files of a kind somewhere below it. -/
def Holds (P : Place → Prop) (c : Place) (n : String) : Prop := ∃ r, r ≠ [] ∧ P (c ++ n :: r)

/-- In every directory, the names of files come before the marked names of the subdirectories that hold files, and the
marked names of those are in the order of the names. -/
structure Straight (P : Place → Prop) : Prop where
  files : ∀ c n m, P (c ++ [n]) → Holds P c m → n < m ++ "/"
  directories : ∀ c n m, Holds P c n → Holds P c m → n < m → n ++ "/" < m ++ "/"

variable {P : Place → Prop} {t' : Tree} {f : String}

lemma files_of_stat (h : t.stat root = .ok (p, .directory)) :
    files t extra root = (places t extra p).map Path.ofComponents := by rw [files, h]

lemma files_of_not_stat (h : ∀ p, t.stat root ≠ .ok (p, .directory)) : files t extra root = [] := by
  unfold files
  split
  · rename_i p hp
    exact absurd hp (h p)
  · rfl

lemma walked_iff (h : t.stat root = .ok (p, .directory)) : Walked t extra root q ↔ q ∈ places t extra p := by
  rw [mem_places, reaches_iff]
  constructor
  · rintro ⟨hne, ⟨p', b, hp', hb⟩, hvendor, htop⟩
    obtain ⟨rfl, -⟩ := Prod.mk.inj (Except.ok.inj (h.symm.trans hp'))
    exact ⟨hne, ⟨hvendor, htop⟩, b, hb⟩
  · rintro ⟨hne, ⟨hvendor, htop⟩, b, hb⟩
    exact ⟨hne, ⟨p, b, h, hb⟩, hvendor, htop⟩

/-- The names on the way to a file that is walked have no slash. -/
lemma Walked.slashless (h : Walked t extra root q) : ∀ n ∈ q, '/' ∉ n.toList := by
  obtain ⟨p, b, -, hb⟩ := h.file
  exact fun n hn => (names_of_get? hb n hn).2

/-- A file that is walked has no other one below it. -/
lemma Walked.eq_of_prefix (h : Walked t extra root p) (h' : Walked t extra root q) (hpq : p <+: q) : p = q := by
  obtain ⟨c, b, hc, hb⟩ := h.file
  obtain ⟨c', b', hc', hb'⟩ := h'.file
  obtain ⟨rfl, -⟩ := Prod.mk.inj (Except.ok.inj (hc.symm.trans hc'))
  by_contra hne
  have hnone := Tree.get?_below_file hb ((List.prefix_append_right_inj c).2 hpq) fun h => hne (List.append_cancel_left h).symm
  exact absurd (hb'.symm.trans hnone) nofun

lemma Walked.ofComponents_inj (h : Walked t extra root p) (h' : Walked t extra root q)
    (heq : Path.ofComponents p = Path.ofComponents q) : p = q := by
  rw [← Path.components_ofComponents h.below h.slashless, heq, Path.components_ofComponents h'.below h'.slashless]

/-- Which of two places comes first, by the names at which they part. -/
lemma key_lt_fork_iff (hne : n ≠ m) : key (c ++ n :: r) < key (c ++ m :: s) ↔
    r = [] ∧ s ≠ [] ∨ (r = [] ↔ s = []) ∧ n < m := by
  by_cases hr : r = [] <;> by_cases hs : s = []
  · rw [hr, hs]
    refine Iff.trans ⟨fun h => ?_, key_concat_lt c⟩ (by simp)
    exact (lt_or_gt_of_ne hne).resolve_right fun hmn => lt_asymm h (key_concat_lt c hmn)
  · rw [hr]
    exact iff_of_true (key_lt_below c n hs) (.inl ⟨rfl, hs⟩)
  · rw [hs]
    refine iff_of_false (fun h => lt_asymm h (key_lt_below c m hr)) ?_
    simp [hr]
  · refine Iff.trans ⟨fun h => ?_, key_lt_beside c hr hs⟩ (by simp [hr, hs])
    exact (lt_or_gt_of_ne hne).resolve_right fun hmn => lt_asymm h (key_lt_beside c hs hr hmn)

/-- In a list that is in one strict order another order holds throughout just when it follows from the first. -/
lemma pairwise_iff_of_pairwise {α : Type} {R S : α → α → Prop} {l : List α} (hasymm : ∀ x y, S x y → ¬ S y x)
    (h : l.Pairwise S) : l.Pairwise R ↔ ∀ x ∈ l, ∀ y ∈ l, S x y → R x y := by
  constructor
  · intro hR
    have : Std.Symm fun x y => (S x y → R x y) ∧ (S y x → R y x) := ⟨fun _ _ h => ⟨h.2, h.1⟩⟩
    have hboth : l.Pairwise fun x y => (S x y → R x y) ∧ (S y x → R y x) :=
      (hR.and h).imp fun {x y} h => ⟨fun _ => h.1, fun hyx => absurd hyx (hasymm x y h.2)⟩
    exact fun x hx y hy => (hboth.forall_of_forall (fun x _ => ⟨fun h => absurd h (hasymm x x h),
      fun h => absurd h (hasymm x x h)⟩) hx hy).1
  · exact fun hall => h.imp_of_mem fun hx hy hS => hall _ hx _ hy hS

/-- The paths of places ascend in the order of a walk just when the directories are straight. -/
lemma ascending_iff_straight (hapart : ∀ p q, P p → P q → p <+: q → p = q)
    (hslash : ∀ p, P p → ∀ n ∈ p, '/' ∉ n.toList) :
    (∀ p, P p → ∀ q, P q → key p < key q → Path.ofComponents p < Path.ofComponents q) ↔ Straight P := by
  have hlt : ∀ {c n r m s}, P (c ++ n :: r) → P (c ++ m :: s) → n ≠ m →
      (Path.ofComponents (c ++ n :: r) < Path.ofComponents (c ++ m :: s) ↔ marked n r < marked m s) :=
    fun hp hq hne => ofComponents_lt_iff (hslash _ hp _ (by simp)) (hslash _ hq _ (by simp)) hne
  constructor
  · refine fun h => ⟨fun c n m hn ⟨s, hs, hm⟩ => ?_, fun c n m ⟨r, hr, hn⟩ ⟨s, hs, hm⟩ hnm => ?_⟩
    · have hne : n ≠ m := by
        rintro rfl
        have heq := hapart _ _ hn hm ⟨s, by rw [List.append_assoc, List.singleton_append]⟩
        simp [Ne.symm hs] at heq
      have := (hlt hn hm hne).1 (h _ hn _ hm (key_lt_below c n hs))
      rwa [marked, marked, if_pos rfl, if_neg hs] at this
    · have := (hlt hn hm hnm.ne).1 (h _ hn _ hm (key_lt_beside c hr hs hnm))
      rwa [marked, marked, if_neg hr, if_neg hs] at this
  · intro h p hp q hq hkey
    have hpq : ¬ p <+: q := fun hle => hkey.ne (congrArg key (hapart p q hp hq hle))
    have hqp : ¬ q <+: p := fun hle => hkey.ne (congrArg key (hapart q p hq hp hle)).symm
    obtain ⟨c, n, r, m, s, rfl, rfl, hne⟩ := exists_fork hpq hqp
    rw [hlt hp hq hne, marked, marked]
    rcases (key_lt_fork_iff hne).1 hkey with ⟨rfl, hs⟩ | ⟨hrs, hnm⟩
    · rw [if_pos rfl, if_neg hs]
      exact h.files c n m hp ⟨s, hs, hq⟩
    · by_cases hr : r = []
      · rwa [if_pos hr, if_pos (hrs.1 hr)]
      · have hs : s ≠ [] := fun hs => hr (hrs.2 hs)
        rw [if_neg hr, if_neg hs]
        exact h.directories c n m ⟨r, hr, hp⟩ ⟨s, hs, hq⟩ hnm

/-! ### The order of the entries -/

lemma follow_congr (h : t'.get? = t.get?) (p : Place) (ns : List String) : t'.follow p ns = t.follow p ns := by
  induction ns generalizing p with
  | nil => rfl
  | cons n ns ih => rw [Tree.follow_cons, Tree.follow_cons, h, ih, ih, ih]

lemma places_congr (h : t'.get? = t.get?) (extra : List String) (p : Place) : places t' extra p = places t extra p := by
  have hmem : ∀ q, q ∈ places t' extra p ↔ q ∈ places t extra p := fun q => by rw [mem_places, mem_places, h]
  refine List.Perm.eq_of_pairwise (fun q q' hq hq' hle hge => ?_) (pairwise_places t' extra p) (pairwise_places t extra p)
    ((List.perm_ext_iff_of_nodup (nodup_places t' extra p) (nodup_places t extra p)).2 hmem)
  exact key_injective (mem_places.1 hq).1 (mem_places.1 hq').1 (le_antisymm hle hge)

/-- What a walk lists does not depend on the order in which the entries of the tree are held. -/
lemma files_eq_of_perm (h : t'.entries.Perm t.entries) : files t' extra root = files t extra root := by
  have hget : t'.get? = t.get? := by
    funext q
    by_cases hq : q = []
    · rw [hq]
      rfl
    · refine Option.ext fun e => ?_
      rw [Tree.get?_eq_some hq, Tree.get?_eq_some hq, h.mem_iff]
  have hstat : t'.stat root = t.stat root := by
    rw [Tree.stat, Tree.stat, Tree.place, Tree.place, follow_congr hget, hget]
  rw [files, files, hstat]
  split
  · rw [places_congr hget]
  · rfl

/-- **A walk lists what it is to list, once, but in ascending order only when the directories are straight.** It goes
from directory to directory, whatever the order of the tree's entries. -/
theorem ascending_iff (t : Tree) (extra : List String) (root : String) :
    (∀ f, f ∈ files t extra root ↔ ∃ q, Walked t extra root q ∧ f = Path.ofComponents q) ∧
    (files t extra root).Nodup ∧
    (∀ t' : Tree, t'.entries.Perm t.entries → files t' extra root = files t extra root) ∧
    (∀ p, t.stat root = .ok (p, .directory) → files t extra root =
      (tour t p t.entries.length (vendorNames ++ generatedNames ++ extra) []).map Path.ofComponents) ∧
    ((files t extra root).Pairwise (· < ·) ↔ Straight (Walked t extra root)) := by
  have hstraight := ascending_iff_straight (P := Walked t extra root) (fun _ _ hp hq => hp.eq_of_prefix hq)
    fun _ hp => hp.slashless
  by_cases hroot : ∃ p, t.stat root = .ok (p, .directory)
  · obtain ⟨p, hp⟩ := hroot
    have hwalked : ∀ q, Walked t extra root q ↔ q ∈ places t extra p := fun q => walked_iff hp
    have htour := places_eq_tour t extra p
    have hsorted : (places t extra p).Pairwise fun q q' => key q < key q' := htour ▸ pairwise_tour t p _ _ []
    refine ⟨fun f => ?_, ?_, fun t' => files_eq_of_perm, fun p' hp' => ?_, ?_⟩
    · rw [files_of_stat hp, List.mem_map]
      simp only [hwalked, eq_comm]
    · rw [files_of_stat hp]
      exact (nodup_places t extra p).map_on fun q hq q' hq' =>
        ((hwalked q).2 hq).ofComponents_inj ((hwalked q').2 hq')
    · obtain ⟨rfl, -⟩ := Prod.mk.inj (Except.ok.inj (hp.symm.trans hp'))
      rw [files_of_stat hp, htour]
    · rw [files_of_stat hp, List.pairwise_map, pairwise_iff_of_pairwise (fun _ _ => lt_asymm) hsorted, ← hstraight]
      simp only [hwalked]
  · have hnone : ∀ q, ¬ Walked t extra root q := by
      intro q hq
      obtain ⟨p, -, hp, -⟩ := hq.file
      exact hroot ⟨p, hp⟩
    rw [files_of_not_stat fun p hp => hroot ⟨p, hp⟩, ← hstraight]
    refine ⟨fun f => ?_, List.nodup_nil, fun t' h => ?_, fun p hp => absurd ⟨p, hp⟩ hroot, ?_⟩
    · simp [hnone]
    · rw [files_eq_of_perm h, files_of_not_stat fun p hp => hroot ⟨p, hp⟩]
    · simp [hnone]

/-- A file at the top, and a file in a directory whose name comes after it. -/
def level : Tree := ((Tree.empty.put ["b"] .directory).put ["b", "c"] (.file .empty)).put ["a"] (.file .empty)

/-- What is listed in ascending order stands in straight directories. -/
theorem ascending_iff_level : level.stat "/" = .ok ([], .directory) ∧ files level [] "/" = ["a", "b/c"] ∧
    Straight (Walked level [] "/") := by
  have hroot : level.stat "/" = .ok ([], .directory) := rfl
  have hplaces : places level [] [] = [["a"], ["b", "c"]] := places_eq (by decide) (by decide)
  have hfiles : files level [] "/" = ["a", "b/c"] := by
    rw [files_of_stat hroot, hplaces]
    decide
  obtain ⟨-, -, -, -, hstraight⟩ := ascending_iff level [] "/"
  refine ⟨hroot, hfiles, hstraight.1 ?_⟩
  rw [hfiles]
  decide

/-- A file at the top, and a file in a directory whose name comes first. -/
def interleaved : Tree := ((Tree.empty.put ["a"] .directory).put ["a", "c"] (.file .empty)).put ["b"] (.file .empty)

/-- The file at the top is listed before the one in the directory, although its path comes after it. -/
theorem interleaved_crossed : files interleaved [] "/" = ["b", "a/c"] ∧
    ¬ (files interleaved [] "/").Pairwise (· < ·) := by
  have hroot : interleaved.stat "/" = .ok ([], .directory) := rfl
  have hplaces : places interleaved [] [] = [["b"], ["a", "c"]] := places_eq (by decide) (by decide)
  rw [files_of_stat hroot, hplaces]
  decide

end Ratchet.Workspace
