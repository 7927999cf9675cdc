import Ratchet.Proofs.Path
import Ratchet.Tree

/-!
Trees and what operations leave of them.

A path that can be followed leads to its lexical place, whatever the tree; so what an operation does is
said of places. Each operation has one lemma: where it looks, and what stands at every place after it.
-/

namespace Ratchet

/-- Bytes that compare equal are equal. -/
instance lawfulBytes : LawfulBEq ByteArray where
  eq_of_beq {a b} h := by
    cases a
    cases b
    exact congrArg _ (eq_of_beq h)
  rfl {a} := by
    cases a
    exact BEq.rfl (α := Array UInt8)

namespace Tree

variable {t t' : Tree} {p q : Place} {e : Entry}

/-! ### What stands at a place -/

lemma eq_of_entries (h : t.entries = t'.entries) : t = t' := by
  cases t
  cases t'
  obtain rfl := h
  rfl

@[simp] lemma get?_nil (t : Tree) : t.get? [] = some .directory := rfl

lemma lookup_iff_mem {α β : Type} [BEq α] [LawfulBEq α] {es : List (α × β)} {p : α} {e : β}
    (h : (es.map (·.1)).Nodup) : es.lookup p = some e ↔ (p, e) ∈ es := by
  induction es with
  | nil => simp
  | cons x es ih =>
    obtain ⟨k, v⟩ := x
    rw [List.map_cons, List.nodup_cons] at h
    rw [List.lookup_cons, List.mem_cons]
    split
    · rename_i hk
      obtain rfl := beq_iff_eq.1 hk
      refine ⟨fun hv => .inl (by rw [Option.some.inj hv]), ?_⟩
      rintro (hv | hv)
      · rw [(Prod.mk.inj hv).2]
      · exact absurd (List.mem_map_of_mem hv) h.1
    · rename_i hk
      rw [ih h.2]
      refine ⟨.inr, ?_⟩
      rintro (hv | hv)
      · exact absurd (Prod.mk.inj hv).1 (by simpa using hk)
      · exact hv

lemma get?_eq_some (hp : p ≠ []) : t.get? p = some e ↔ (p, e) ∈ t.entries := by
  rw [get?, if_neg (by simpa using hp)]
  exact lookup_iff_mem t.sound.distinct

/-- The names of a place where something stands are names. -/
lemma isName_of_get? (h : t.get? p = some e) : ∀ n ∈ p, isName n = true := by
  by_cases hp : p = []
  · subst hp
    exact fun n hn => absurd hn List.not_mem_nil
  · exact t.sound.named _ ((get?_eq_some hp).1 h)

/-- What something stands in is a directory. -/
lemma get?_dropLast (h : t.get? p = some e) : t.get? p.dropLast = some .directory := by
  by_cases hp : p = []
  · subst hp
    rfl
  · by_cases hd : p.dropLast = []
    · rw [hd]
      rfl
    · exact (get?_eq_some hd).2 (t.sound.rooted _ ((get?_eq_some hp).1 h) hd)

/-- Above anything there are directories. -/
lemma get?_above (hq : q ≠ []) (h : t.get? (p ++ q) = some e) : t.get? p = some .directory := by
  induction q using List.reverseRecOn generalizing e with
  | nil => exact absurd rfl hq
  | append_singleton q n ih =>
    have hd := get?_dropLast h
    rw [← List.append_assoc, List.dropLast_concat] at hd
    by_cases hq' : q = []
    · rwa [hq', List.append_nil] at hd
    · exact ih hq' hd

lemma get?_below_file {b : ByteArray} (h : t.get? p = some (.file b)) (hpq : p <+: q) (hq : q ≠ p) :
    t.get? q = none := by
  obtain ⟨r, rfl⟩ := hpq
  rw [Option.eq_none_iff_forall_ne_some]
  intro e he
  have hr : r ≠ [] := by
    rintro rfl
    exact hq (List.append_nil p)
  exact absurd (h.symm.trans (get?_above hr he)) nofun

lemma bytes?_eq_some {b : ByteArray} : t.bytes? p = some b ↔ t.get? p = some (.file b) := by
  unfold bytes?
  split
  · rename_i c hc
    rw [hc]
    simp
  · rename_i hc
    exact iff_of_false nofun fun h => hc b h

lemma bytes?_congr (h : t'.get? q = t.get? p) : t'.bytes? q = t.bytes? p := by
  rw [bytes?, bytes?, h]

/-- Below nothing there is nothing. -/
lemma get?_below_none (h : t.get? p = none) (hpq : p <+: q) : t.get? q = none := by
  rw [Option.eq_none_iff_forall_ne_some]
  intro e he
  obtain ⟨r, rfl⟩ := hpq
  rcases eq_or_ne r [] with rfl | hr
  · rw [List.append_nil, h] at he
    exact absurd he nofun
  · exact absurd (h.symm.trans (get?_above hr he)) nofun

lemma bytes?_below_none (h : t.get? p = none) (hpq : p <+: q) : t.bytes? q = none := by
  rw [bytes?, get?_below_none h hpq]

/-! ### Entries set, taken away and moved -/

lemma get?_put (h : Entries.admits t.entries p e = true) (q : Place) :
    (t.put p e).get? q = if q = p then some e else t.get? q := by
  have hp : p ≠ [] := (Entries.admits_iff.1 h).1
  rw [put, dif_pos h]
  by_cases hq : q = []
  · subst hq
    rw [if_neg (Ne.symm hp)]
    rfl
  · ext v
    rw [get?_eq_some hq, Entries.mem_put]
    split
    · rename_i hqp
      subst hqp
      simp [eq_comm]
    · rename_i hqp
      rw [get?_eq_some hq]
      simp [hqp]

lemma get?_erase (p q : Place) : (t.erase p).get? q = if p <+: q ∧ q ≠ [] then none else t.get? q := by
  by_cases hq : q = []
  · subst hq
    rw [if_neg (by simp)]
    rfl
  · ext v
    rw [get?_eq_some hq, erase, Entries.mem_erase]
    split
    · rename_i h
      simp [h.1]
    · rename_i h
      have hn : ¬ p <+: q := fun hpq => h ⟨hpq, hq⟩
      rw [get?_eq_some hq]
      simp [hn]

lemma ne_nil_of_moves (h : Entries.moves t.entries p q = true) : p ≠ [] := by
  obtain ⟨hq, -, -, hpq⟩ := Entries.moves_iff.1 h
  rintro rfl
  exact hq (hpq List.nil_prefix).symm

/-- What was moved stands below the target as it stood below the source. -/
lemma get?_move_below (h : Entries.moves t.entries p q = true) (r : Place) :
    (t.move p q).get? (q ++ r) = t.get? (p ++ r) := by
  have hp := ne_nil_of_moves h
  have hq : q ≠ [] := (Entries.moves_iff.1 h).1
  rw [move, dif_pos h]
  ext v
  rw [get?_eq_some (by simp [hq]), get?_eq_some (by simp [hp]), Entries.mem_move]
  refine ⟨?_, fun hv => .inl ⟨r, hv, rfl⟩⟩
  rintro (⟨r', hr', hr⟩ | ⟨-, -, hn⟩)
  · obtain rfl := List.append_cancel_left hr
    exact hr'
  · exact absurd (List.prefix_append q r) hn

/-- Elsewhere the source is gone and everything else as it was. -/
lemma get?_move_other (h : Entries.moves t.entries p q = true) {x : Place} (hx : ¬ q <+: x) :
    (t.move p q).get? x = if p <+: x then none else t.get? x := by
  have hp := ne_nil_of_moves h
  by_cases hx0 : x = []
  · subst hx0
    rw [if_neg (by simpa using hp)]
    rfl
  · rw [move, dif_pos h]
    ext v
    rw [get?_eq_some hx0, Entries.mem_move]
    have hno : ¬ ∃ r, (p ++ r, v) ∈ t.entries ∧ x = q ++ r := fun ⟨r, _, hr⟩ => hx ⟨r, hr.symm⟩
    split
    · rename_i hpx
      simp [hno, hpx]
    · rename_i hpx
      rw [get?_eq_some hx0]
      simp [hno, hpx, hx]

/-! ### Following paths -/

lemma follow_cons (t : Tree) (p : Place) (n : String) (ns : List String) :
    t.follow p (n :: ns) = match t.get? p with
      | none => .error .noEntry
      | some (.file _) => .error .notDirectory
      | some .directory =>
        if n == "" || n == "." then t.follow p ns
        else if n == ".." then t.follow p.dropLast ns
        else if maxName < n.utf8ByteSize then .error .nameTooLong
        else t.follow (p ++ [n]) ns := rfl

/-- A path that can be followed leads through directories, one step after another. -/
lemma follow_cons_cases {n : String} {ns : List String} (h : t.follow p (n :: ns) = .ok q) :
    t.get? p = some .directory ∧
      ((n = "" ∨ n = ".") ∧ t.follow p ns = .ok q ∨ n = ".." ∧ t.follow p.dropLast ns = .ok q ∨
        Path.Proper n ∧ n.utf8ByteSize ≤ maxName ∧ t.follow (p ++ [n]) ns = .ok q) := by
  rw [follow_cons] at h
  split at h
  · exact absurd h nofun
  · exact absurd h nofun
  · rename_i hd
    refine ⟨hd, ?_⟩
    by_cases h1 : n = "" ∨ n = "."
    · rw [if_pos (by simpa using h1)] at h
      exact .inl ⟨h1, h⟩
    · rw [if_neg (by simpa using h1)] at h
      by_cases h2 : n = ".."
      · rw [if_pos (by simpa using h2)] at h
        exact .inr (.inl ⟨h2, h⟩)
      · rw [if_neg (by simpa using h2)] at h
        split at h
        · exact absurd h nofun
        · rename_i h3
          obtain ⟨ha, hb⟩ := not_or.1 h1
          exact .inr (.inr ⟨⟨ha, hb, h2⟩, by omega, h⟩)

/-- Where a path leads does not depend on the tree. -/
lemma follow_lexical {ns : List String} (hp : ∀ m ∈ p, Path.Proper m) (h : t.follow p ns = .ok q) :
    q = (ns.foldl (Path.pushComponent true) p.reverse).reverse := by
  induction ns generalizing p with
  | nil =>
    obtain rfl := Except.ok.inj h
    exact (List.reverse_reverse p).symm
  | cons n ns ih =>
    obtain ⟨-, ⟨hn, hf⟩ | ⟨rfl, hf⟩ | ⟨hn, -, hf⟩⟩ := follow_cons_cases h
    · rw [List.foldl_cons, show Path.pushComponent true p.reverse n = p.reverse by
        rcases hn with rfl | rfl <;> rfl]
      exact ih hp hf
    · rw [List.foldl_cons, show Path.pushComponent true p.reverse ".." = p.dropLast.reverse from ?_]
      · exact ih (fun m hm => hp m (List.mem_of_mem_dropLast hm)) hf
      · cases p using List.reverseRecOn with
        | nil => rfl
        | append_singleton p m =>
          have hm := (hp m (by simp)).2.2
          simp [Path.pushComponent, hm]
    · rw [List.foldl_cons, Path.pushComponent_proper hn, ← List.reverse_concat]
      refine ih (fun m hm => ?_) hf
      rcases List.mem_append.1 hm with hm | hm
      · exact hp m hm
      · rwa [List.mem_singleton.1 hm]

/-- The names that a path leads through can be names of entries. -/
lemma isName_of_follow {ns : List String} (hp : ∀ m ∈ p, isName m = true)
    (hns : ∀ n ∈ ns, '/' ∉ n.toList ∧ '\x00' ∉ n.toList) (h : t.follow p ns = .ok q) :
    ∀ m ∈ q, isName m = true := by
  induction ns generalizing p with
  | nil =>
    obtain rfl := Except.ok.inj h
    exact hp
  | cons n ns ih =>
    have hns' := (List.forall_mem_cons.1 hns).2
    obtain ⟨-, ⟨-, h⟩ | ⟨-, h⟩ | ⟨⟨h1, h2, h3⟩, hsize, h⟩⟩ := follow_cons_cases h
    · exact ih hp hns' h
    · exact ih (fun m hm => hp m (List.mem_of_mem_dropLast hm)) hns' h
    · refine ih (fun m hm => ?_) hns' h
      rcases List.mem_append.1 hm with hm | hm
      · exact hp m hm
      · obtain rfl := List.mem_singleton.1 hm
        obtain ⟨h4, h5⟩ := hns m List.mem_cons_self
        simp [isName, h1, h2, h3, h4, h5, hsize]

lemma place_eq {path : String} (h : t.place path = .ok p) :
    path ≠ "" ∧ t.follow [] (Path.components path) = .ok p := by
  rw [place] at h
  split at h
  · exact absurd h nofun
  · rename_i hne
    exact ⟨by simpa using hne, h⟩

lemma place_lexical {path : String} (h : t.place path = .ok p) : p = Path.lexical path :=
  follow_lexical (fun _ hm => absurd hm List.not_mem_nil) (place_eq h).2

lemma isName_of_place {path : String} (hz : '\x00' ∉ path.toList) (h : t.place path = .ok p) :
    ∀ m ∈ p, isName m = true := by
  refine isName_of_follow (fun _ hm => absurd hm List.not_mem_nil) (fun n hn => ?_) (place_eq h).2
  obtain ⟨h1, h2⟩ := Path.of_mem_components hn
  exact ⟨h1, fun h0 => hz (h2 _ h0)⟩

lemma proper_of_isName {n : String} (h : isName n = true) :
    Path.Proper n ∧ '/' ∉ n.toList ∧ '\x00' ∉ n.toList ∧ n.utf8ByteSize ≤ maxName := by
  simp only [isName, Bool.and_eq_true, bne_iff_ne, ne_eq, Bool.not_eq_true', List.contains_eq_mem,
    decide_eq_false_iff_not, decide_eq_true_eq] at h
  obtain ⟨⟨⟨⟨⟨h1, h2⟩, h3⟩, h4⟩, h5⟩, h6⟩ := h
  exact ⟨⟨h1, h2, h3⟩, h4, h5, h6⟩

/-- Names lead to what stands there. -/
lemma follow_of_get? {ns : List String} (hns : ∀ n ∈ ns, n = "" ∨ isName n = true)
    (h : t.get? (p ++ ns.filter (· != "")) = some e) (hlast : e = .directory ∨ ns.getLast? ≠ some "") :
    t.follow p ns = .ok (p ++ ns.filter (· != "")) := by
  induction ns generalizing p with
  | nil => rw [List.filter_nil, List.append_nil]; rfl
  | cons n ns ih =>
    have hns' := (List.forall_mem_cons.1 hns).2
    have hlast' : e = .directory ∨ ns.getLast? ≠ some "" := by
      refine hlast.imp_right fun hl hn => hl ?_
      rw [List.getLast?_cons, hn]
      rfl
    have hp : t.get? p = some .directory := by
      by_cases hq : (n :: ns).filter (· != "") = []
      · rw [hq, List.append_nil] at h
        rw [h]
        refine congrArg some (hlast.resolve_right fun hl => hl ?_)
        have hall : ∀ m ∈ n :: ns, m = "" := by simpa using hq
        rw [List.getLast?_eq_some_getLast (List.cons_ne_nil n ns)]
        exact congrArg some (hall _ (List.getLast_mem _))
      · exact get?_above hq h
    rw [follow_cons, hp]
    rcases hns n List.mem_cons_self with rfl | hn
    · exact ih hns' h hlast'
    · obtain ⟨⟨h1, h2, h3⟩, -, -, hsize⟩ := proper_of_isName hn
      rw [List.filter_cons_of_pos (by simpa using h1)] at h ⊢
      have hs : p ++ n :: ns.filter (· != "") = (p ++ [n]) ++ ns.filter (· != "") := by simp
      rw [hs] at h ⊢
      simp only [beq_iff_eq, h1, h2, h3, or_self, Bool.or_eq_true, if_false]
      rw [if_neg (by omega)]
      exact ih hns' h hlast'

lemma place_of_get? {path : String} (hc : Path.Clear path) (h : t.get? (Path.lexical path) = some e)
    (hlast : e = .directory ∨ (Path.components path).getLast? ≠ some "") :
    t.place path = .ok (Path.lexical path) := by
  have hn := isName_of_get? h
  rw [hc.lexical] at h hn ⊢
  rw [place, if_neg (by simpa using hc.ne_empty)]
  refine follow_of_get? (fun n hn' => ?_) h hlast
  by_cases h0 : n = ""
  · exact .inl h0
  · exact .inr (hn n (List.mem_filter.2 ⟨hn', by simpa using h0⟩))

/-- Names lead to what stands there, with empty components and single dots between them. -/
lemma follow_level {ns : List String} (hns : ".." ∉ ns) (hlast : ∀ n ∈ ns.getLast?, Path.Proper n)
    (h : t.get? (p ++ ns.filter fun n => n != "" && n != ".") = some e) : ∃ q, t.follow p ns = .ok q := by
  induction ns generalizing p with
  | nil => exact ⟨p, rfl⟩
  | cons n ns ih =>
    obtain ⟨hn, hns⟩ := not_or.1 (mt List.mem_cons.2 hns)
    have hlast' : ∀ m ∈ ns.getLast?, Path.Proper m := fun m hm => hlast m (by
      rw [List.getLast?_cons, Option.mem_def.1 hm]
      rfl)
    have hd : t.get? p = some .directory := by
      refine Tree.get?_above (fun hnil => ?_) h
      obtain ⟨h1, h2, -⟩ := hlast _ (List.getLast?_eq_some_getLast (List.cons_ne_nil n ns))
      exact (List.filter_eq_nil_iff.1 hnil _ (List.getLast_mem (List.cons_ne_nil n ns))) (by simp [h1, h2])
    rw [follow_cons, hd]
    dsimp only
    by_cases hdot : n = "" ∨ n = "."
    · rw [if_pos (by simpa using hdot)]
      refine ih hns hlast' ?_
      rwa [List.filter_cons_of_neg (by rcases hdot with rfl | rfl <;> decide)] at h
    · obtain ⟨h1, h2⟩ := not_or.1 hdot
      rw [List.filter_cons_of_pos (by simp [h1, h2]), ← List.singleton_append, ← List.append_assoc] at h
      obtain ⟨-, -, -, hsize⟩ := proper_of_isName (isName_of_get? h n (by simp))
      rw [if_neg (by simp [h1, h2]), if_neg (by simpa using Ne.symm hn), if_neg (by omega)]
      exact ih hns hlast' h

lemma place_level {path : String} (hl : Path.Level path) (h : t.get? (Path.lexical path) = some e) :
    ∃ p, t.place path = .ok p := by
  obtain ⟨cs, hcs⟩ := Path.components_eq_name path
  have hplace : Path.lexical path = [] ++ (Path.components path).filter fun c => c != "" && c != "." := by
    rw [Path.lexical, Path.normalComponents, Path.foldl_pushComponent_level hl.climbs]
    simp
  rw [place, if_neg fun h0 => hl.named.1 ?_]
  · refine follow_level hl.climbs (fun n hn => ?_) (hplace ▸ h)
    rw [hcs, List.getLast?_concat, Option.mem_some] at hn
    exact hn ▸ hl.named
  · rw [String.isEmpty_iff.1 h0]
    rfl

lemma stat_eq {path : String} : t.stat path = .ok (p, e) ↔ t.place path = .ok p ∧ t.get? p = some e := by
  simp only [stat, bind, Except.bind, pure, Except.pure]
  rcases t.place path with c | q
  · simp
  · dsimp only
    rcases hq : t.get? q with _ | e'
    · refine iff_of_false nofun ?_
      rintro ⟨hqp, he⟩
      obtain rfl := Except.ok.inj hqp
      exact absurd (hq.symm.trans he) nofun
    · constructor
      · intro h
        obtain ⟨rfl, rfl⟩ := Prod.mk.inj (Except.ok.inj h)
        exact ⟨rfl, hq⟩
      · rintro ⟨hqp, he⟩
        obtain rfl := Except.ok.inj hqp
        rw [Option.some.inj (hq.symm.trans he)]

lemma follow_append (ns ms : List String) : t.follow p (ns ++ ms) = (t.follow p ns).bind (t.follow · ms) := by
  induction ns generalizing p with
  | nil => rfl
  | cons n ns ih =>
    rw [List.cons_append, follow_cons, follow_cons]
    rcases t.get? p with _ | c | _
    · rfl
    · rfl
    · dsimp only
      split_ifs
      · exact ih
      · exact ih
      · rfl
      · exact ih

/-- A path to a file ends with a name. -/
lemma proper_name {path : String} {b : ByteArray} (hp : t.place path = .ok p) (hb : t.get? p = some (.file b)) :
    Path.Proper (Path.name path) := by
  obtain ⟨cs, hcs⟩ := Path.components_eq_name path
  have hf := (place_eq hp).2
  rw [hcs, follow_append] at hf
  rcases hr : t.follow [] cs with c | r
  · rw [hr] at hf
    exact absurd hf nofun
  · rw [hr] at hf
    obtain ⟨hd, ⟨-, hq⟩ | ⟨-, hq⟩ | ⟨hn, -, -⟩⟩ := follow_cons_cases hf
    · obtain rfl := Except.ok.inj hq
      exact absurd (hb.symm.trans hd) nofun
    · obtain rfl := Except.ok.inj hq
      exact absurd (hb.symm.trans (get?_dropLast hd)) nofun
    · exact hn

lemma isFile_iff {path : String} : t.isFile path = true ↔ ∃ p b, t.stat path = .ok (p, .file b) := by
  unfold isFile
  split
  · rename_i q b h
    simp [h]
  · rename_i h
    exact iff_of_false nofun fun ⟨p, b, hb⟩ => h p b hb

lemma isDirectory_iff {path : String} : t.isDirectory path = true ↔ ∃ p, t.stat path = .ok (p, .directory) := by
  unfold isDirectory
  split
  · rename_i q h
    simp [h]
  · rename_i h
    exact iff_of_false nofun fun ⟨p, hp⟩ => h p hp

/-! ### Operations -/

lemma about_eq_ok {α : Type} {path : String} {r : Except SystemCause α} {a : α} :
    about path r = .ok a ↔ '\x00' ∉ path.toList ∧ r = .ok a := by
  unfold about
  split
  · rename_i h
    exact iff_of_false nofun fun hn => hn.1 (by simpa using h)
  · rename_i h
    have hn : '\x00' ∉ path.toList := by simpa using h
    cases r <;> simp [hn]

lemma read_eq_ok {path : String} {b : ByteArray} :
    t.read path = .ok b ↔ '\x00' ∉ path.toList ∧ ∃ p, t.stat path = .ok (p, .file b) := by
  rw [read, about_eq_ok]
  refine and_congr Iff.rfl ?_
  simp only [bind, Except.bind, pure, Except.pure]
  rcases t.stat path with c | ⟨q, c | _⟩
  · simp
  · simp
  · simp

/-- What is found is found through names of entries. -/
lemma zero_notMem_of_follow {ns : List String} (h : t.follow p ns = .ok q) (he : t.get? q = some e) :
    ∀ n ∈ ns, '\x00' ∉ n.toList := by
  have hstart : ∀ {p : Place} {ns : List String}, t.follow p ns = .ok q → ∃ e, t.get? p = some e := by
    intro p ns h
    cases ns with
    | nil =>
      obtain rfl := Except.ok.inj h
      exact ⟨e, he⟩
    | cons n ns => exact ⟨_, (follow_cons_cases h).1⟩
  induction ns generalizing p with
  | nil => exact fun _ hn => absurd hn List.not_mem_nil
  | cons n ns ih =>
    obtain ⟨-, ⟨hn, hf⟩ | ⟨rfl, hf⟩ | ⟨-, -, hf⟩⟩ := follow_cons_cases h
    · refine List.forall_mem_cons.2 ⟨?_, ih hf⟩
      rcases hn with rfl | rfl
      · decide
      · decide
    · exact List.forall_mem_cons.2 ⟨by decide, ih hf⟩
    · obtain ⟨e', he'⟩ := hstart hf
      have hname := isName_of_get? he' n (List.mem_append_right p (List.mem_singleton_self n))
      exact List.forall_mem_cons.2 ⟨(proper_of_isName hname).2.2.1, ih hf⟩

/-- A file is read at the end of every path that leads to it. -/
lemma read_of_isFile {path : String} (h : t.isFile path = true) :
    ∃ b, t.read path = .ok b ∧ t.get? (Path.lexical path) = some (.file b) := by
  obtain ⟨p, b, hstat⟩ := isFile_iff.1 h
  obtain ⟨hplace, hget⟩ := stat_eq.1 hstat
  have hz : '\x00' ∉ path.toList := fun hmem => by
    obtain ⟨n, hn, hz⟩ := Path.exists_mem_components hmem (by decide)
    exact zero_notMem_of_follow (place_eq hplace).2 hget n hn hz
  rw [place_lexical hplace] at hget hstat
  exact ⟨b, read_eq_ok.2 ⟨hz, _, hstat⟩, hget⟩

/-- An entry may be set where something may stand. -/
lemma admits_of (hp : p ≠ []) (hn : ∀ n ∈ p, isName n = true) (hd : t.get? p.dropLast = some .directory)
    (hf : e ≠ .directory → t.get? p ≠ some .directory) : Entries.admits t.entries p e = true := by
  refine Entries.admits_iff.2 ⟨hp, hn, fun h0 => (get?_eq_some h0).1 hd, fun he x hx hpx => ?_⟩
  by_contra hne
  obtain ⟨r, hr⟩ := hpx
  have hr0 : r ≠ [] := by
    rintro rfl
    exact hne (hr.symm.trans (List.append_nil p))
  have hx' : t.get? (p ++ r) = some x.2 := by
    rw [hr]
    exact (get?_eq_some (t.sound.nonempty x hx)).2 hx
  exact hf he (get?_above hr0 hx')

/-- What writing a file takes and leaves. -/
structure Wrote (t t' : Tree) (p : Place) (b : ByteArray) : Prop where
  nonempty : p ≠ []
  free : t.get? p ≠ some .directory
  parent : t.get? p.dropLast = some .directory
  after : ∀ q, t'.get? q = if q = p then some (.file b) else t.get? q

lemma write_ok {path : String} {b : ByteArray} (h : t.write path b = .ok t') :
    t.place path = .ok (Path.lexical path) ∧ Wrote t t' (Path.lexical path) b := by
  obtain ⟨hz, h⟩ := about_eq_ok.1 h
  simp only [writable, bind, Except.bind, pure, Except.pure] at h
  rcases hp : t.place path with c | p
  · rw [hp] at h
    exact absurd h nofun
  · obtain rfl := place_lexical hp
    have hname := isName_of_place hz hp
    rw [hp] at h
    dsimp only at h
    set p := Path.lexical path with hpdef
    have hkey : t.get? p ≠ some .directory ∧ t.get? p.dropLast = some .directory ∧
        t' = t.put p (.file b) := by
      rcases hg : t.get? p with _ | c | _
      · rw [hg] at h
        rcases hd : t.get? p.dropLast with _ | c | _
        · rw [hd] at h
          exact absurd h nofun
        · rw [hd] at h
          exact absurd h nofun
        · rw [hd] at h
          exact ⟨nofun, rfl, (Except.ok.inj h).symm⟩
      · rw [hg] at h
        exact ⟨nofun, get?_dropLast hg, (Except.ok.inj h).symm⟩
      · rw [hg] at h
        exact absurd h nofun
    obtain ⟨hfree, hparent, rfl⟩ := hkey
    have hp0 : p ≠ [] := by
      intro h0
      exact hfree (by rw [h0]; rfl)
    exact ⟨rfl, hp0, hfree, hparent, get?_put (admits_of hp0 hname hparent fun _ => hfree)⟩

/-- A removed file is gone, and nothing else. -/
lemma remove_ok {path : String} (h : t.remove path = .ok t') :
    (∃ b, t.get? (Path.lexical path) = some (.file b)) ∧
      ∀ q, t'.get? q = if q = Path.lexical path then none else t.get? q := by
  obtain ⟨-, h⟩ := about_eq_ok.1 h
  simp only [bind, Except.bind, pure, Except.pure] at h
  rcases hs : t.stat path with c | ⟨p, b | _⟩
  · rw [hs] at h
    exact absurd h nofun
  · rw [hs] at h
    obtain rfl := Except.ok.inj h
    obtain ⟨hp, hb⟩ := stat_eq.1 hs
    obtain rfl := place_lexical hp
    refine ⟨⟨b, hb⟩, fun q => ?_⟩
    rw [get?_erase]
    by_cases hq : q = Path.lexical path
    · have hq0 : Path.lexical path ≠ [] := by
        intro h0
        rw [h0] at hb
        exact absurd hb nofun
      rw [if_pos hq, if_pos ⟨by rw [hq], by rwa [hq]⟩]
    · rw [if_neg hq]
      split
      · rename_i hpq
        exact (get?_below_file hb hpq.1 hq).symm
      · rfl
  · rw [hs] at h
    exact absurd h nofun

/-- What stands after directories were made: what stood before, and new directories. -/
def Grown (t t' : Tree) : Prop :=
  ∀ p, t'.get? p = t.get? p ∨ (t.get? p = none ∧ t'.get? p = some .directory)

lemma Grown.refl (t : Tree) : Grown t t := fun _ => .inl rfl

lemma Grown.trans {t'' : Tree} (h : Grown t t') (h' : Grown t' t'') : Grown t t'' := by
  intro p
  rcases h p with hp | ⟨hp, hd⟩
  · rcases h' p with hp' | ⟨hp', hd'⟩
    · exact .inl (hp'.trans hp)
    · exact .inr ⟨hp.symm.trans hp', hd'⟩
  · rcases h' p with hp' | ⟨hp', -⟩
    · exact .inr ⟨hp, hp'.trans hd⟩
    · exact absurd (hp'.symm.trans hd) nofun

lemma Grown.get?_of_some (h : Grown t t') (he : t.get? p = some e) : t'.get? p = some e := by
  rcases h p with hp | ⟨hp, -⟩
  · exact hp.trans he
  · exact absurd (hp.symm.trans he) nofun

lemma Grown.bytes? (h : Grown t t') (p : Place) : t'.bytes? p = t.bytes? p := by
  rcases h p with hp | ⟨hp, hd⟩
  · exact bytes?_congr hp
  · rw [Tree.bytes?, Tree.bytes?, hp, hd]

lemma makeDirectory_ok {path : String} (h : t.makeDirectory path = .ok t') :
    t.get? (Path.lexical path) = none ∧
      ∀ q, t'.get? q = if q = Path.lexical path then some .directory else t.get? q := by
  obtain ⟨hz, h⟩ := about_eq_ok.1 h
  simp only [bind, Except.bind, pure, Except.pure] at h
  rcases hp : t.place path with c | p
  · rw [hp] at h
    exact absurd h nofun
  · obtain rfl := place_lexical hp
    have hname := isName_of_place hz hp
    rw [hp] at h
    dsimp only at h
    set p := Path.lexical path with hpdef
    rcases hg : t.get? p with _ | c
    · rw [hg] at h
      have hp0 : p ≠ [] := by
        intro h0
        rw [h0] at hg
        exact absurd hg nofun
      rcases hd : t.get? p.dropLast with _ | c | _
      · rw [hd] at h
        exact absurd h nofun
      · rw [hd] at h
        exact absurd h nofun
      · rw [hd] at h
        obtain rfl := Except.ok.inj h
        exact ⟨rfl, get?_put (admits_of hp0 hname hd fun he => absurd rfl he)⟩
    · rw [hg] at h
      exact absurd h nofun

lemma makeDirectory_grown {path : String} (h : t.makeDirectory path = .ok t') : Grown t t' := by
  obtain ⟨hn, ha⟩ := makeDirectory_ok h
  intro q
  by_cases hq : q = Path.lexical path
  · exact .inr ⟨hq ▸ hn, by rw [ha, if_pos hq]⟩
  · exact .inl (by rw [ha, if_neg hq])

/-- The last step of making directories may leave the tree alone where a directory that is there already will do. -/
lemma again_or_makeDirectory {again : Bool} {path : String} {u : Tree}
    (h : (match u.makeDirectory path with
      | .ok t => .ok t
      | .error f => if (again && f.kind.isSystem && u.isDirectory path) = true then .ok u else .error f) =
      (.ok t' : Except Fault Tree)) : (again = true ∧ t' = u) ∨ u.makeDirectory path = .ok t' := by
  rcases hm : u.makeDirectory path with f | v
  · rw [hm] at h
    dsimp only at h
    split at h
    · rename_i hagain
      simp only [Bool.and_eq_true] at hagain
      exact .inl ⟨hagain.1.1, (Except.ok.inj h).symm⟩
    · cases h
  · rw [hm] at h
    exact .inr h

/-- Making directories makes those that lead to the last one first. -/
lemma makeDirectories_succ {again : Bool} {fuel : Nat} {path : String}
    (h : makeDirectories again (fuel + 1) path t = .ok t') :
    ∃ u head, (head = Path.parent path ∨ head = Path.parent (Path.parent path)) ∧
      (u = t ∨ makeDirectories again fuel head t = .ok u) ∧ (t' = u ∨ u.makeDirectory path = .ok t') := by
  simp only [makeDirectories, bind, Except.bind, pure, Except.pure] at h
  generalize hsplit : (if (Path.splitLast path).2.isEmpty = true then Path.splitLast (Path.splitLast path).1
    else ((Path.splitLast path).1, (Path.splitLast path).2)) = split at h
  obtain ⟨head, tail⟩ := split
  have hhead : head = Path.parent path ∨ head = Path.parent (Path.parent path) := by
    split at hsplit
    · exact .inr (congrArg Prod.fst hsplit).symm
    · exact .inl (congrArg Prod.fst hsplit).symm
  have hdone : ∀ {u : Tree} {c : Bool} {r : Except Fault Tree}, (if c = true then .ok u else r) = .ok t' →
      t' = u ∨ r = .ok t' := by
    intro u c r hr
    split at hr
    · exact .inl (Except.ok.inj hr).symm
    · exact .inr hr
  dsimp only at h
  split at h
  · split at h
    · rename_i u hu
      exact ⟨u, head, hhead, .inr hu, (hdone h).elim .inl fun h => (again_or_makeDirectory h).imp_left And.right⟩
    · split at h
      · exact ⟨t, head, hhead, .inl rfl, (hdone h).elim .inl fun h => (again_or_makeDirectory h).imp_left And.right⟩
      · cases h
  · exact ⟨t, head, hhead, .inl rfl, (hdone h).elim .inl fun h => (again_or_makeDirectory h).imp_left And.right⟩

/-- Making directories adds directories and changes nothing else, by induction on the fuel. -/
lemma makeDirectories_grown {again : Bool} {fuel : Nat} {path : String}
    (h : makeDirectories again fuel path t = .ok t') : Grown t t' := by
  induction fuel generalizing t t' path with
  | zero =>
    obtain rfl := Except.ok.inj h
    exact .refl t
  | succ fuel ih =>
    obtain ⟨u, head, -, hu, ht⟩ := makeDirectories_succ h
    have h1 : Grown t u := by
      rcases hu with rfl | hu
      · exact .refl u
      · exact ih hu
    rcases ht with rfl | ht
    · exact h1
    · exact h1.trans (makeDirectory_grown ht)

/-- Directories are made on the way to a clear path and nowhere else, by induction on the fuel. -/
lemma makeDirectories_above {again : Bool} {fuel : Nat} {path : String} (hc : Path.Clear path)
    (h : makeDirectories again fuel path t = .ok t') (hq : ¬ q <+: Path.lexical path) : t'.get? q = t.get? q := by
  induction fuel generalizing t t' path with
  | zero => rw [Except.ok.inj h]
  | succ fuel ih =>
    obtain ⟨u, head, hhead, hu, ht⟩ := makeDirectories_succ h
    have hpre : ∀ {s : String}, Path.Clear s → Path.lexical (Path.parent s) <+: Path.lexical s := fun hs => by
      obtain ⟨-, ns, hns, -⟩ := Path.clear_parent hs
      exact ⟨ns, hns.symm⟩
    have hparent := (Path.clear_parent hc).1
    have hup : Path.Clear head ∧ Path.lexical head <+: Path.lexical path := by
      rcases hhead with rfl | rfl
      · exact ⟨hparent, hpre hc⟩
      · exact ⟨(Path.clear_parent hparent).1, (hpre hparent).trans (hpre hc)⟩
    have h1 : u.get? q = t.get? q := by
      rcases hu with rfl | hu
      · rfl
      · exact ih hup.1 hu fun h => hq (h.trans hup.2)
    rcases ht with rfl | ht
    · exact h1
    · rw [(makeDirectory_ok ht).2 q, if_neg, h1]
      rintro rfl
      exact hq List.prefix_rfl

lemma ensureDirectories_above {path : String} (hc : Path.Clear path) (h : t.ensureDirectories path = .ok t')
    (hq : ¬ q <+: Path.lexical path) : t'.get? q = t.get? q :=
  makeDirectories_above hc h hq

lemma ensureDirectories_grown {path : String} (h : t.ensureDirectories path = .ok t') : Grown t t' :=
  makeDirectories_grown h

lemma newDirectories_grown {path : String} (h : t.newDirectories path = .ok t') : Grown t t' :=
  makeDirectories_grown h

/-- Where a copied file lands: a directory takes the file in. -/
def landing (t : Tree) (source target : String) : String :=
  if t.isDirectory target then Path.join target (Path.name source) else target

/-- A copied file is written where it lands. -/
lemma copy_ok {source target : String} (h : t.copy source target = .ok t') :
    ∃ b, t.place source = .ok (Path.lexical source) ∧ t.get? (Path.lexical source) = some (.file b) ∧
      Path.lexical source ≠ Path.lexical (landing t source target) ∧
      t.place (landing t source target) = .ok (Path.lexical (landing t source target)) ∧
      Wrote t t' (Path.lexical (landing t source target)) b := by
  obtain ⟨same, hsame, hcopy⟩ : ∃ same : Bool,
      (∀ p q e e', t.stat source = .ok (p, e) → t.stat (t.landing source target) = .ok (q, e') →
        same = (p == q)) ∧
      t.copy source target = if same then .error (.sameFile source (t.landing source target))
        else t.read source >>= fun b => t.write (t.landing source target) b :=
    ⟨_, fun p q e e' hp hq => by
      rw [landing] at hq
      rw [hp, hq], rfl⟩
  rw [hcopy] at h
  split at h
  · exact absurd h nofun
  · rename_i hne
    rcases hr : t.read source with f | b
    · rw [hr] at h
      exact absurd h nofun
    · rw [hr] at h
      obtain ⟨-, p, hs⟩ := read_eq_ok.1 hr
      obtain ⟨hp, hb⟩ := stat_eq.1 hs
      obtain rfl := place_lexical hp
      obtain ⟨hq, hw⟩ := write_ok h
      refine ⟨b, hp, hb, fun heq => hne ?_, hq, hw⟩
      rw [hsame _ _ _ _ hs (stat_eq.2 ⟨by rw [hq, ← heq], hb⟩)]
      exact beq_self_eq_true _

lemma removeAll_ok {path : String} (h : t.removeAll path = .ok t') :
    t.get? (Path.lexical path) = some .directory ∧ t' = t.erase (Path.lexical path) := by
  obtain ⟨-, h⟩ := about_eq_ok.1 h
  simp only [bind, Except.bind, pure, Except.pure] at h
  rcases hs : t.stat path with c | ⟨p, b | _⟩
  · rw [hs] at h
    exact absurd h nofun
  · rw [hs] at h
    exact absurd h nofun
  · rw [hs] at h
    obtain ⟨hp, hd⟩ := stat_eq.1 hs
    obtain rfl := place_lexical hp
    exact ⟨hd, (Except.ok.inj h).symm⟩

/-- A tree in which a file or directory was moved is the tree that the move gives. -/
lemma eq_of_moved {source target : String} {u : Tree} {c : Bool}
    (h : (match (if c = true then Except.error SystemCause.invalid else Except.ok u) with
      | .ok t => .ok t
      | .error c => .error (Fault.systemPair c source target)) = (.ok t' : Except Fault Tree)) : t' = u := by
  cases c
  · exact (Except.ok.inj h).symm
  · cases h

/-- What is moved is there, its new place is free but for an empty directory, or a file that a file replaces, and lies
in a directory. -/
lemma rename_ok {source target : String} (h : t.rename source target = .ok t') :
    ∃ e, t.get? (Path.lexical source) = some e ∧ t.place target = .ok (Path.lexical target) ∧
      t.get? (Path.lexical target).dropLast = some .directory ∧
      (t.get? (Path.lexical target) = some .directory → t.namesAt (Path.lexical target) = []) ∧
      (e = .directory → t.bytes? (Path.lexical target) = none) ∧
      t' = t.move (Path.lexical source) (Path.lexical target) := by
  simp only [rename, bind, Except.bind, pure, Except.pure] at h
  rcases hs : t.stat source with c | ⟨p, e⟩
  · rw [hs] at h
    cases h
  · obtain ⟨hp, he⟩ := stat_eq.1 hs
    obtain rfl := place_lexical hp
    rw [hs] at h
    dsimp only at h
    rcases hq : t.place target with c | q
    · rw [hq] at h
      cases h
    · obtain rfl := place_lexical hq
      rw [hq] at h
      dsimp only at h
      rcases hd : t.get? (Path.lexical target).dropLast with _ | c | _
      · rw [hd] at h
        cases h
      · rw [hd] at h
        cases h
      · rw [hd] at h
        refine ⟨e, he, rfl, rfl, ?_⟩
        rcases hg : t.get? (Path.lexical target) with _ | c | _
        · rw [hg] at h
          exact ⟨nofun, fun _ => by rw [bytes?, hg], eq_of_moved h⟩
        · rw [hg] at h
          rcases e with b | _
          · exact ⟨nofun, nofun, eq_of_moved h⟩
          · cases h
        · rw [hg] at h
          rcases e with b | _
          · cases h
          · by_cases hn : (t.namesAt (Path.lexical target)).isEmpty = true
            · simp only [hn, if_true] at h
              exact ⟨fun _ => List.isEmpty_iff.1 hn, fun _ => by rw [bytes?, hg], eq_of_moved h⟩
            · simp only [if_neg hn] at h
              cases h

end Tree

end Ratchet
