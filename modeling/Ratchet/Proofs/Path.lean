import Mathlib.Data.List.DropRight
import Mathlib.Tactic
import Ratchet.Path

/-!
Paths and the places that they name.

`lexical` reads the place of a path off its text: `..` takes the component before it back, whatever
stands there. `Clear` says that a path has no dots to follow; the normal form of an absolute path is
clear, and the place of a clear path is the list of its components.
-/

namespace Ratchet

namespace Text

lemma splitAtChar_append (sep : Char) (a b : List Char) :
    splitAtChar sep (a ++ sep :: b) = splitAtChar sep a ++ splitAtChar sep b := by
  induction a with
  | nil => simp [splitAtChar]
  | cons c a ih =>
    simp only [List.cons_append, splitAtChar]
    split
    · rw [ih, List.cons_append]
    · rw [ih]
      cases h : splitAtChar sep a with
      | nil => exact absurd h (splitAtChar_ne_nil sep a)
      | cons p ps => rfl

lemma splitAtChar_eq_singleton {sep : Char} {s : List Char} (h : sep ∉ s) : splitAtChar sep s = [s] := by
  induction s with
  | nil => rfl
  | cons c s ih =>
    have hc : (c == sep) = false := beq_false_of_ne fun hc => h (hc ▸ List.mem_cons_self)
    rw [splitAtChar, if_neg (by simp [hc]), ih fun hs => h (List.mem_cons_of_mem c hs)]

lemma splitAtChar_joinWith {sep : Char} {ps : List (List Char)} (hne : ps ≠ []) (h : ∀ p ∈ ps, sep ∉ p) :
    splitAtChar sep (joinWith [sep] ps) = ps := by
  induction ps with
  | nil => exact absurd rfl hne
  | cons p ps ih =>
    have hp := splitAtChar_eq_singleton (h p List.mem_cons_self)
    cases ps with
    | nil => exact hp
    | cons q ps =>
      have hq := ih (List.cons_ne_nil q ps) fun r hr => h r (List.mem_cons_of_mem p hr)
      rw [joinWith, List.append_assoc, List.singleton_append, splitAtChar_append, hp, hq,
        List.singleton_append]
      exact List.cons_ne_nil q ps

/-- A piece has characters of the text, and never the separator. -/
lemma of_mem_splitAtChar {sep : Char} {s p : List Char} (h : p ∈ splitAtChar sep s) :
    sep ∉ p ∧ ∀ c ∈ p, c ∈ s := by
  induction s generalizing p with
  | nil =>
    obtain rfl := List.mem_singleton.1 h
    exact ⟨List.not_mem_nil, fun c hc => hc⟩
  | cons d s ih =>
    rw [splitAtChar] at h
    split at h
    · rcases List.mem_cons.1 h with rfl | h
      · exact ⟨List.not_mem_nil, fun c hc => absurd hc List.not_mem_nil⟩
      · exact ⟨(ih h).1, fun c hc => List.mem_cons_of_mem d ((ih h).2 c hc)⟩
    · rename_i hd
      cases hs : splitAtChar sep s with
      | nil => exact absurd hs (splitAtChar_ne_nil sep s)
      | cons q qs =>
        rw [hs] at h
        rcases List.mem_cons.1 h with rfl | h
        · obtain ⟨hq, hm⟩ := ih (hs ▸ List.mem_cons_self)
          refine ⟨fun hmem => ?_, fun c hc => ?_⟩
          · rcases List.mem_cons.1 hmem with rfl | hmem
            · exact hd (beq_self_eq_true _)
            · exact hq hmem
          · rcases List.mem_cons.1 hc with rfl | hc
            · exact List.mem_cons_self
            · exact List.mem_cons_of_mem d (hm c hc)
        · obtain ⟨hp, hm⟩ := ih (hs ▸ List.mem_cons_of_mem q h)
          exact ⟨hp, fun c hc => List.mem_cons_of_mem d (hm c hc)⟩

/-- Every other character of the text stands in a piece. -/
lemma exists_mem_splitAtChar {sep c : Char} {s : List Char} (hc : c ∈ s) (hne : c ≠ sep) :
    ∃ p ∈ splitAtChar sep s, c ∈ p := by
  induction s with
  | nil => exact absurd hc List.not_mem_nil
  | cons d s ih =>
    rw [splitAtChar]
    split
    · rename_i hd
      have hs := (List.mem_cons.1 hc).resolve_left fun h => hne (h.trans (eq_of_beq hd))
      obtain ⟨p, hp, hcp⟩ := ih hs
      exact ⟨p, List.mem_cons_of_mem _ hp, hcp⟩
    · cases hs : splitAtChar sep s with
      | nil => exact absurd hs (splitAtChar_ne_nil sep s)
      | cons q qs =>
        rcases List.mem_cons.1 hc with rfl | hc
        · exact ⟨c :: q, List.mem_cons_self, List.mem_cons_self⟩
        · obtain ⟨p, hp, hcp⟩ := ih hc
          rw [hs] at hp
          rcases List.mem_cons.1 hp with rfl | hp
          · exact ⟨d :: p, List.mem_cons_self, List.mem_cons_of_mem d hcp⟩
          · exact ⟨p, List.mem_cons_of_mem _ hp, hcp⟩

lemma joinWith_append (sep : List Char) {xs ys : List (List Char)} (hx : xs ≠ []) (hy : ys ≠ []) :
    joinWith sep (xs ++ ys) = joinWith sep xs ++ sep ++ joinWith sep ys := by
  induction xs with
  | nil => exact absurd rfl hx
  | cons x xs ih =>
    rcases xs with _ | ⟨x', xs⟩
    · obtain ⟨y, ys, rfl⟩ := List.exists_cons_of_ne_nil hy
      simp [joinWith]
    · have hrest := ih (List.cons_ne_nil x' xs)
      simp only [List.cons_append, joinWith] at hrest ⊢
      rw [hrest]
      simp [List.append_assoc]

end Text

namespace Path

/-! ### Components -/

lemma components_slash (a b : String) : components (a ++ "/" ++ b) = components a ++ components b := by
  have h : (a ++ "/" ++ b).toList = a.toList ++ '/' :: b.toList := by simp [String.toList_append]
  rw [components, h, Text.splitAtChar_append, List.map_append]
  rfl

@[simp] lemma components_empty : components "" = [""] := rfl

lemma components_slash_empty (a : String) : components (a ++ "/") = components a ++ [""] := by
  have h := components_slash a ""
  rwa [String.append_empty] at h

lemma components_root (b : String) : components ("/" ++ b) = "" :: components b := by
  have h := components_slash "" b
  rwa [String.empty_append] at h

lemma components_ofComponents {cs : List String} (hne : cs ≠ []) (h : ∀ c ∈ cs, '/' ∉ c.toList) :
    components (ofComponents cs) = cs := by
  have hs : ∀ p ∈ cs.map String.toList, '/' ∉ p := by
    intro p hp
    obtain ⟨c, hc, rfl⟩ := List.mem_map.1 hp
    exact h c hc
  rw [components, ofComponents, String.toList_ofList,
    Text.splitAtChar_joinWith (by simpa using hne) hs, List.map_map]
  exact List.map_id'' (fun c => String.ofList_toList) cs

lemma of_mem_components {s c : String} (h : c ∈ components s) :
    '/' ∉ c.toList ∧ ∀ x ∈ c.toList, x ∈ s.toList := by
  obtain ⟨p, hp, rfl⟩ := List.mem_map.1 h
  rw [String.toList_ofList]
  exact Text.of_mem_splitAtChar hp

lemma exists_mem_components {s : String} {x : Char} (hx : x ∈ s.toList) (hne : x ≠ '/') :
    ∃ c ∈ components s, x ∈ c.toList := by
  obtain ⟨p, hp, hxp⟩ := Text.exists_mem_splitAtChar hx hne
  exact ⟨String.ofList p, List.mem_map_of_mem hp, by rwa [String.toList_ofList]⟩

lemma components_ne_nil (s : String) : components s ≠ [] := by
  simpa [components] using Text.splitAtChar_ne_nil '/' s.toList

lemma exists_root {s : String} (h : isAbsolute s = true) : ∃ r, s = "/" ++ r := by
  obtain ⟨l, hl⟩ := List.head?_eq_some_iff.1 (beq_iff_eq.1 h)
  refine ⟨String.ofList l, String.toList_inj.1 ?_⟩
  simp [hl, String.toList_append]

lemma components_of_slashless {n : String} (hs : '/' ∉ n.toList) : components n = [n] := by
  rw [components, Text.splitAtChar_eq_singleton hs, List.map_singleton, String.ofList_toList]

lemma isAbsolute_of_slashless {n : String} (hs : '/' ∉ n.toList) : isAbsolute n = false := by
  rw [isAbsolute, beq_eq_false_iff_ne]
  exact fun h => hs (List.mem_of_head? h)

lemma exists_slash {s : String} (h : s.toList.getLast? = some '/') : ∃ r, s = r ++ "/" := by
  obtain ⟨l, hl⟩ := List.getLast?_eq_some_iff.1 h
  refine ⟨String.ofList l, String.toList_inj.1 ?_⟩
  simp [hl, String.toList_append]

/-- What is seen from a path has its components, without an empty one at its end, before its own. -/
lemma components_join {a b : String} (ha : a ≠ "") (hb : isAbsolute b = false) :
    ∃ cs, components (join a b) = cs ++ components b ∧ (components a = cs ∨ components a = cs ++ [""]) := by
  rw [join, if_neg (by simp [hb])]
  split
  · rename_i h
    simp only [String.isEmpty_iff, Bool.or_eq_true, beq_iff_eq, ha, false_or] at h
    obtain ⟨r, rfl⟩ := exists_slash h
    exact ⟨components r, components_slash r b, .inr (components_slash_empty r)⟩
  · exact ⟨components a, components_slash a b, .inl rfl⟩

/-! ### Places -/

/-- Whether a component leads to a name of its own. -/
def Proper (c : String) : Prop := c ≠ "" ∧ c ≠ "." ∧ c ≠ ".."

instance (c : String) : Decidable (Proper c) := inferInstanceAs (Decidable (c ≠ "" ∧ c ≠ "." ∧ c ≠ ".."))

/-- The place that a path names when all that it leads through is there. -/
def lexical (s : String) : List String := normalComponents true (components s)

lemma pushComponent_proper {rooted : Bool} {st : List String} {c : String} (h : Proper c) :
    pushComponent rooted st c = c :: st := by
  obtain ⟨h1, h2, h3⟩ := h
  simp [pushComponent, h1, h2, h3]

@[simp] lemma pushComponent_empty (rooted : Bool) (st : List String) : pushComponent rooted st "" = st := rfl

lemma proper_pushComponent {st : List String} {c : String} (h : ∀ n ∈ st, Proper n) :
    ∀ n ∈ pushComponent true st c, Proper n := by
  intro n hn
  unfold pushComponent at hn
  split at hn
  · exact h n hn
  · rename_i h1
    split at hn
    · rename_i h2
      rcases List.mem_cons.1 hn with rfl | hn
      · simp only [Bool.or_eq_true, beq_iff_eq, not_or] at h1
        exact ⟨h1.1, h1.2, by simpa using h2⟩
      · exact h n hn
    · split at hn
      · exact absurd hn (by simp)
      · rename_i d r
        split at hn
        · rename_i hd
          exact absurd (beq_iff_eq.1 hd) (h d List.mem_cons_self).2.2
        · exact h n (List.mem_cons_of_mem d hn)

lemma proper_foldl {st cs : List String} (h : ∀ n ∈ st, Proper n) :
    ∀ n ∈ cs.foldl (pushComponent true) st, Proper n := by
  induction cs generalizing st with
  | nil => exact h
  | cons c cs ih => exact ih (proper_pushComponent h)

lemma proper_normalComponents {cs : List String} : ∀ n ∈ normalComponents true cs, Proper n := by
  intro n hn
  exact proper_foldl (fun n hn => absurd hn List.not_mem_nil) n (List.mem_reverse.1 hn)

lemma mem_pushComponent {st : List String} {c n : String} (hn : n ∈ pushComponent true st c)
    (h : ∀ m ∈ st, Proper m) : n = c ∨ n ∈ st := by
  unfold pushComponent at hn
  split at hn
  · exact .inr hn
  · split at hn
    · exact List.mem_cons.1 hn
    · split at hn
      · exact absurd hn (by simp)
      · rename_i d r
        split at hn
        · rename_i hd
          exact absurd (beq_iff_eq.1 hd) (h d List.mem_cons_self).2.2
        · exact .inr (List.mem_cons_of_mem d hn)

/-- The names of a place are components of its path. -/
lemma mem_foldl_pushComponent {st cs : List String} {n : String} (h : ∀ m ∈ st, Proper m)
    (hn : n ∈ cs.foldl (pushComponent true) st) : n ∈ st ∨ n ∈ cs := by
  induction cs generalizing st with
  | nil => exact .inl hn
  | cons c cs ih =>
    rcases ih (proper_pushComponent h) hn with hn | hn
    · rcases mem_pushComponent hn h with rfl | hn
      · exact .inr List.mem_cons_self
      · exact .inl hn
    · exact .inr (List.mem_cons_of_mem c hn)

lemma mem_lexical {s n : String} (hn : n ∈ lexical s) : Proper n ∧ n ∈ components s := by
  refine ⟨proper_normalComponents n hn, ?_⟩
  rcases mem_foldl_pushComponent (fun m hm => absurd hm List.not_mem_nil) (List.mem_reverse.1 hn) with h | h
  · exact absurd h List.not_mem_nil
  · exact h

/-- Components without dots are pushed as they are; empty ones do nothing. -/
lemma foldl_pushComponent {st cs : List String} (h : ∀ c ∈ cs, c = "" ∨ Proper c) :
    cs.foldl (pushComponent true) st = (cs.filter (· != "")).reverse ++ st := by
  induction cs generalizing st with
  | nil => rfl
  | cons c cs ih =>
    have hcs := fun d hd => h d (List.mem_cons_of_mem c hd)
    rw [List.foldl_cons, ih hcs]
    rcases h c List.mem_cons_self with rfl | hc
    · rfl
    · rw [pushComponent_proper hc, List.filter_cons_of_pos (by simpa using hc.1), List.reverse_cons,
        List.append_assoc, List.singleton_append]

lemma normalComponents_append (cs ds : List String) :
    normalComponents true (cs ++ ds) =
      (ds.foldl (pushComponent true) (normalComponents true cs).reverse).reverse := by
  rw [normalComponents, List.foldl_append, normalComponents, List.reverse_reverse]

lemma normalComponents_eq {cs : List String} (h : ∀ c ∈ cs, c = "" ∨ Proper c) :
    normalComponents true cs = cs.filter (· != "") := by
  rw [normalComponents, foldl_pushComponent h, List.append_nil, List.reverse_reverse]

/-- The place of a path that is seen from another one. -/
lemma lexical_join {a b : String} (ha : a ≠ "") (hb : isAbsolute b = false) :
    lexical (join a b) = ((components b).foldl (pushComponent true) (lexical a).reverse).reverse := by
  obtain ⟨cs, hj, hc⟩ := components_join ha hb
  rw [lexical, lexical, hj, normalComponents_append]
  rcases hc with hc | hc
  · rw [hc]
  · rw [hc, normalComponents_append]
    simp

/-! ### Clear paths -/

/-- An absolute path without dots to follow. -/
structure Clear (s : String) : Prop where
  absolute : isAbsolute s = true
  proper : ∀ c ∈ components s, c = "" ∨ Proper c

lemma Clear.lexical {s : String} (h : Clear s) : lexical s = (components s).filter (· != "") :=
  normalComponents_eq h.proper

lemma Clear.ne_empty {s : String} (h : Clear s) : s ≠ "" := by
  rintro rfl
  exact absurd h.absolute nofun

/-- The normal form of an absolute path: slashes, and then the names of its place. -/
lemma normal_absolute {s : String} (h : isAbsolute s = true) :
    normal s = leadingSlashes s ++ ofComponents (lexical s) ∧
      (leadingSlashes s = "/" ∨ leadingSlashes s = "//") := by
  have hl : leadingSlashes s = "/" ∨ leadingSlashes s = "//" := by
    obtain ⟨l, hl⟩ := List.head?_eq_some_iff.1 (beq_iff_eq.1 h)
    unfold leadingSlashes
    rw [hl]
    split
    · exact .inl rfl
    · exact .inr rfl
    · exact .inl rfl
    · rename_i hne
      exact absurd rfl (hne l)
  refine ⟨?_, hl⟩
  rw [normal, if_neg]
  · rw [h]
    rfl
  · rw [String.isEmpty_iff, String.append_eq_empty_iff]
    rintro ⟨h0, -⟩
    rw [h0] at hl
    exact absurd hl (by decide)

/-- Slashes before names add empty components at the start. -/
lemma components_slashes {l : String} (hl : l = "/" ∨ l = "//") {ns : List String} (hn : ∀ n ∈ ns, '/' ∉ n.toList) :
    ∃ k, components (l ++ ofComponents ns) = List.replicate k "" ++ ns := by
  have hc : ∃ k, components (ofComponents ns) = List.replicate k "" ++ ns := by
    rcases ns with _ | ⟨n, ns⟩
    · exact ⟨1, rfl⟩
    · exact ⟨0, components_ofComponents (List.cons_ne_nil n ns) hn⟩
  obtain ⟨k, hk⟩ := hc
  rcases hl with rfl | rfl
  · exact ⟨k + 1, by rw [components_root, hk]; rfl⟩
  · refine ⟨k + 2, ?_⟩
    rw [show "//" = "/" ++ "/" from rfl, String.append_assoc, components_root, components_root, hk]
    rfl

/-- Names after slashes are the place of a path. -/
lemma lexical_slashes {l : String} (hl : l = "/" ∨ l = "//") {ns : List String}
    (hn : ∀ n ∈ ns, Proper n ∧ '/' ∉ n.toList) : lexical (l ++ ofComponents ns) = ns := by
  obtain ⟨k, hk⟩ := components_slashes hl fun n hm => (hn n hm).2
  have hb : (List.replicate k "").filter (· != "") = [] := by simp
  rw [lexical, hk, normalComponents_eq fun c hc => (List.mem_append.1 hc).imp List.eq_of_mem_replicate fun hc => (hn c hc).1,
    List.filter_append, hb, List.nil_append, List.filter_eq_self]
  exact fun c hc => by simpa using (hn c hc).1.1

lemma components_normal {s : String} (h : isAbsolute s = true) :
    ∃ k, components (normal s) = List.replicate k "" ++ lexical s := by
  obtain ⟨hn, hl⟩ := normal_absolute h
  rw [hn]
  exact components_slashes hl fun c hc => (of_mem_components (mem_lexical hc).2).1

lemma clear_normal {s : String} (h : isAbsolute s = true) : Clear (normal s) := by
  refine ⟨isAbsolute_normal h, fun c hc => ?_⟩
  obtain ⟨k, hk⟩ := components_normal h
  rw [hk, List.mem_append] at hc
  rcases hc with hc | hc
  · exact .inl (List.eq_of_mem_replicate hc)
  · exact .inr (mem_lexical hc).1

@[simp] lemma lexical_normal {s : String} (h : isAbsolute s = true) : lexical (normal s) = lexical s := by
  obtain ⟨hn, hl⟩ := normal_absolute h
  rw [hn]
  exact lexical_slashes hl fun c hc => ⟨(mem_lexical hc).1, (of_mem_components (mem_lexical hc).2).1⟩

lemma clear_absolute {here : String} (s : String) (h : isAbsolute here = true) : Clear (absolute here s) :=
  clear_normal (isAbsolute_join s h)

lemma isAbsolute_ofComponents {q : List String} (hq : q ≠ []) (hn : ∀ n ∈ q, Proper n ∧ '/' ∉ n.toList) :
    isAbsolute (ofComponents q) = false := by
  have hc : components (ofComponents q) = q := components_ofComponents hq fun n hm => (hn n hm).2
  obtain ⟨n, ns, rfl⟩ := List.exists_cons_of_ne_nil hq
  rw [Bool.eq_false_iff]
  intro ha
  obtain ⟨r, hr⟩ := exists_root ha
  rw [hr, components_root] at hc
  exact (hn n List.mem_cons_self).1.1 (List.cons.inj hc).1.symm

lemma components_join_ofComponents {a : String} (h : Clear a) {q : List String} (hq : q ≠ [])
    (hn : ∀ n ∈ q, Proper n ∧ '/' ∉ n.toList) : ∃ cs, components (join a (ofComponents q)) = cs ++ q := by
  obtain ⟨cs, hj, -⟩ := components_join h.ne_empty (isAbsolute_ofComponents hq hn)
  exact ⟨cs, by rw [hj, components_ofComponents hq fun n hm => (hn n hm).2]⟩

/-- An absolute path has the same place wherever it is seen from. -/
lemma lexical_absolute {here s : String} (hs : isAbsolute s = true) : lexical (absolute here s) = lexical s := by
  rw [absolute, join, if_pos hs, lexical_normal hs]

/-- Names below a clear path are clear, and their place lies below its place. -/
lemma Clear.join {a : String} (h : Clear a) {q : List String} (hq : q ≠ [])
    (hn : ∀ n ∈ q, Proper n ∧ '/' ∉ n.toList) :
    Clear (join a (ofComponents q)) ∧ Path.lexical (Path.join a (ofComponents q)) = Path.lexical a ++ q := by
  have hc : components (ofComponents q) = q := components_ofComponents hq fun n hm => (hn n hm).2
  have habs := isAbsolute_ofComponents hq hn
  refine ⟨⟨isAbsolute_join _ h.absolute, fun c hmem => ?_⟩, ?_⟩
  · obtain ⟨cs, hj, ha⟩ := components_join h.ne_empty habs
    rw [hj, hc, List.mem_append] at hmem
    rcases hmem with hmem | hmem
    · refine h.proper c ?_
      rcases ha with ha | ha <;> simp [ha, hmem]
    · exact .inr (hn c hmem).1
  · rw [lexical_join h.ne_empty habs, hc, foldl_pushComponent fun c hc => .inr (hn c hc).1,
      List.reverse_append, List.reverse_reverse, List.reverse_reverse, List.filter_eq_self.2]
    exact fun c hc => by simpa using (hn c hc).1.1

lemma ofComponents_singleton (n : String) : ofComponents [n] = n := String.ofList_toList

/-- One name below a clear path. -/
lemma Clear.child {a n : String} (h : Clear a) (hn : Proper n) (hs : '/' ∉ n.toList) :
    Clear (Path.join a n) ∧ Path.lexical (Path.join a n) = Path.lexical a ++ [n] := by
  have hj := h.join (List.cons_ne_nil n []) fun m hm => by
    rw [List.mem_singleton.1 hm]
    exact ⟨hn, hs⟩
  rwa [ofComponents_singleton] at hj

lemma takeWhile_ne {c : Char} {a b : List Char} (h : c ∉ a) : (a ++ c :: b).takeWhile (· != c) = a := by
  have hne : ∀ d ∈ a, (d != c) = true := fun d hd => bne_iff_ne.2 fun h0 => h (h0 ▸ hd)
  rw [List.takeWhile_append_of_pos hne, List.takeWhile_cons_of_neg (by simp), List.append_nil]

/-- One name below an absolute path stands after a slash. -/
lemma join_name {dir n : String} (hd : isAbsolute dir = true) (hs : '/' ∉ n.toList) :
    ∃ r, join dir n = r ++ "/" ++ n := by
  have hne : dir ≠ "" := by
    rintro rfl
    exact absurd hd nofun
  rw [join, if_neg (by simp [isAbsolute_of_slashless hs])]
  split
  · rename_i h
    simp only [String.isEmpty_iff, Bool.or_eq_true, beq_iff_eq, hne, false_or] at h
    obtain ⟨r, rfl⟩ := exists_slash h
    exact ⟨r, rfl⟩
  · exact ⟨dir, rfl⟩

/-- The last component of a path is what stands after its last slash. -/
lemma name_append (r : String) {n : String} (hs : '/' ∉ n.toList) : name (r ++ "/" ++ n) = n := by
  have hrev : (r ++ "/" ++ n).toList.reverse = n.toList.reverse ++ '/' :: r.toList.reverse := by
    simp [String.toList_append]
  have htake : ((r ++ "/" ++ n).toList.reverse.takeWhile (· != '/')).reverse = n.toList := by
    rw [hrev, takeWhile_ne (fun h => hs (List.mem_reverse.1 h)), List.reverse_reverse]
  rw [name, splitLast]
  simp only [htake, String.ofList_toList]

/-- The name of a path that leads one name down is that name. -/
lemma name_join {dir n : String} (hd : isAbsolute dir = true) (hs : '/' ∉ n.toList) : name (join dir n) = n := by
  obtain ⟨r, hr⟩ := join_name hd hs
  rw [hr, name_append r hs]

/-- The name of a path is its last component. -/
lemma components_eq_name (s : String) : ∃ cs, components s = cs ++ [name s] := by
  have hname : name s = String.ofList (s.toList.reverse.takeWhile (· != '/')).reverse := rfl
  by_cases h : '/' ∈ s.toList.reverse
  · obtain ⟨a, b, hs, ha⟩ := List.eq_append_cons_of_mem h
    have ha' : '/' ∉ a.reverse := fun h0 => ha (List.mem_reverse.1 h0)
    refine ⟨(Text.splitAtChar '/' b.reverse).map String.ofList, ?_⟩
    rw [hname, hs, takeWhile_ne ha, components, ← List.reverse_reverse s.toList, hs, List.reverse_append,
      List.reverse_cons, List.append_assoc, List.singleton_append, Text.splitAtChar_append,
      Text.splitAtChar_eq_singleton ha', List.map_append, List.map_singleton]
  · have hne : ∀ d ∈ s.toList.reverse, (d != '/') = true := fun d hd => bne_iff_ne.2 fun h0 => h (h0 ▸ hd)
    have htake : (s.toList.reverse ++ []).takeWhile (· != '/') = s.toList.reverse ++ [].takeWhile (· != '/') :=
      List.takeWhile_append_of_pos hne
    rw [List.append_nil, List.takeWhile_nil, List.append_nil] at htake
    refine ⟨[], ?_⟩
    rw [hname, htake, List.reverse_reverse, components,
      Text.splitAtChar_eq_singleton fun h0 => h (List.mem_reverse.2 h0), List.map_singleton, List.nil_append]

/-- A path with a name does not end with a slash. -/
lemma getLast?_of_name {s : String} (h : name s ≠ "") : s.toList.getLast? ≠ some '/' := by
  intro hlast
  obtain ⟨r, rfl⟩ := exists_slash hlast
  obtain ⟨cs, hcs⟩ := components_eq_name (r ++ "/")
  rw [components_slash_empty] at hcs
  exact h (List.append_singleton_inj.1 hcs).2.symm

/-- What a directory takes in lands directly in it. -/
lemma lexical_join_name {target source : String} (ht : Clear target) (hs : Proper (name source)) :
    lexical (join target (name source)) = lexical target ++ [name source] := by
  obtain ⟨cs, hcs⟩ := components_eq_name source
  have hslash : '/' ∉ (name source).toList := (of_mem_components (s := source) (by simp [hcs])).1
  exact (ht.child hs hslash).2

/-- The place of a path that ends with a name ends with that name. -/
lemma exists_lexical_name {s : String} (h : Proper (name s)) : ∃ ds, lexical s = ds ++ [name s] := by
  obtain ⟨cs, hcs⟩ := components_eq_name s
  refine ⟨normalComponents true cs, ?_⟩
  rw [lexical, hcs, normalComponents_append, List.foldl_cons, List.foldl_nil, pushComponent_proper h, List.reverse_cons,
    List.reverse_reverse]

/-! ### Paths below a root -/

/-- A text stands at or below another one when it goes on after it with a slash, or ends there. -/
lemma isBelow_iff {root p : String} : isBelow root p = true ↔ p = root ∨ ∃ r, p = root ++ "/" ++ r := by
  rw [isBelow, Bool.or_eq_true, beq_iff_eq, List.isPrefixOf_iff_prefix]
  refine or_congr Iff.rfl ⟨?_, ?_⟩
  · rintro ⟨r, hr⟩
    refine ⟨String.ofList r, String.toList_inj.1 ?_⟩
    rw [← hr, String.toList_append (s := root ++ "/"), String.toList_ofList]
  · rintro ⟨r, rfl⟩
    rw [String.toList_append (s := root ++ "/")]
    exact List.prefix_append _ _

/-- What stands at or below a root by its text stands there by its place. -/
lemma lexical_of_isBelow {root p : String} (hp : Clear p) (h : isBelow root p = true) :
    lexical root <+: lexical p := by
  obtain rfl | ⟨r, rfl⟩ := isBelow_iff.1 h
  · exact List.prefix_rfl
  · have hpr : ∀ c ∈ components r, c = "" ∨ Proper c := fun c hc =>
      hp.proper c (by rw [components_slash]; exact List.mem_append_right _ hc)
    rw [lexical, lexical, components_slash, normalComponents_append, foldl_pushComponent hpr,
      List.reverse_append, List.reverse_reverse, List.reverse_reverse]
    exact List.prefix_append _ _

lemma within?_eq_some {here root path p : String} (hh : isAbsolute here = true)
    (h : within? here root path = some p) :
    p = normal (join (absolute here root) path) ∧ Clear p ∧ lexical (absolute here root) <+: lexical p := by
  simp only [within?] at h
  split at h
  · rename_i hb
    obtain rfl := Option.some.inj h
    have hc : Clear (normal (join (absolute here root) path)) :=
      clear_normal (isAbsolute_join _ (isAbsolute_absolute root hh))
    exact ⟨rfl, hc, lexical_of_isBelow hc hb⟩
  · exact absurd h nofun

/-- A relative path after slashes adds none to them. -/
lemma leadingSlashes_append {l path : String} (hl : l = "/" ∨ l = "//") (hpath : isAbsolute path = false) :
    leadingSlashes (l ++ path) = l := by
  have hhead : ∀ c cs, path.toList = c :: cs → c ≠ '/' := by
    rintro c cs hcs rfl
    simp [isAbsolute, hcs] at hpath
  rw [leadingSlashes, String.toList_append]
  rcases hcs : path.toList with _ | ⟨c, cs⟩
  · rcases hl with rfl | rfl
    · rfl
    · rfl
  · have hc := hhead c cs hcs
    rcases hl with rfl | rfl
    · have hone : "/".toList ++ c :: cs = '/' :: c :: cs := rfl
      rw [hone]
      split
      · rfl
      · rename_i heq
        exact absurd (List.cons.inj (List.cons.inj heq).2).1 hc
      · rfl
      · rename_i hne
        exact absurd rfl (hne (c :: cs))
    · have htwo : "//".toList ++ c :: cs = '/' :: '/' :: c :: cs := rfl
      rw [htwo]
      split
      · rename_i heq
        exact absurd (List.cons.inj (List.cons.inj (List.cons.inj heq).2).2).1 hc
      · rfl
      · rename_i hne heq
        exact absurd (List.cons.inj heq).2.symm (hne (c :: cs))
      · rename_i hne
        exact absurd rfl (hne ('/' :: c :: cs))

lemma isAbsolute_append_of_ne {a : String} (b : String) (ha : a ≠ "") : isAbsolute (a ++ b) = isAbsolute a := by
  obtain ⟨c, cs, hcs⟩ := List.exists_cons_of_ne_nil (mt String.toList_eq_nil_iff.1 ha)
  simp [isAbsolute, String.toList_append, hcs]

section

variable {ns ms : List String}

lemma ofComponents_eq_empty_iff (hn : ∀ n ∈ ns, Proper n ∧ '/' ∉ n.toList) : ofComponents ns = "" ↔ ns = [] := by
  refine ⟨fun h => ?_, fun h => h ▸ rfl⟩
  by_contra hne
  have hc := components_ofComponents hne fun n hm => (hn n hm).2
  rw [h, components_empty] at hc
  exact (hn "" (hc ▸ List.mem_singleton_self "")).1.1 rfl

lemma not_isAbsolute_ofComponents (hn : ∀ n ∈ ns, Proper n ∧ '/' ∉ n.toList) :
    isAbsolute (ofComponents ns) = false := by
  by_cases hne : ns = []
  · rw [hne]
    rfl
  · exact isAbsolute_ofComponents hne hn

/-- The names of a place are proper and hold no slash. -/
lemma names_lexical (s : String) : ∀ n ∈ lexical s, Proper n ∧ '/' ∉ n.toList := fun _ hn =>
  ⟨(mem_lexical hn).1, (of_mem_components (mem_lexical hn).2).1⟩

/-- The text of names is that of the first ones, a slash, and that of the others. -/
lemma ofComponents_append {r t : List String} (hr : r ≠ []) (ht : t ≠ []) :
    ofComponents (r ++ t) = ofComponents r ++ "/" ++ ofComponents t := by
  apply String.toList_inj.1
  simp only [ofComponents, String.toList_append, String.toList_ofList, List.map_append]
  exact Text.joinWith_append _ (by simpa using hr) (by simpa using ht)

/-- The text of names stands below that of every place above. -/
lemma isBelow_ofComponents {r d : List String} (hr : r ≠ []) (h : r <+: d) :
    isBelow (ofComponents r) (ofComponents d) = true := by
  obtain ⟨t, rfl⟩ := h
  rw [isBelow_iff]
  by_cases ht : t = []
  · rw [ht, List.append_nil]
    exact .inl rfl
  · exact .inr ⟨ofComponents t, ofComponents_append hr ht⟩

lemma isBelow_append (l a b : String) : isBelow (l ++ a) (l ++ b) = isBelow a b := by
  rw [Bool.eq_iff_iff, isBelow_iff, isBelow_iff]
  simp only [String.append_assoc, String.append_right_inj]

lemma isAbsolute_of_isBelow {a b : String} (ha : a ≠ "") (h : isBelow a b = true) : isAbsolute b = isAbsolute a := by
  obtain rfl | ⟨r, rfl⟩ := isBelow_iff.1 h
  · rfl
  · rw [String.append_assoc, isAbsolute_append_of_ne _ ha]

/-- Texts of names tell which place lies below which, except that none lies below the one without names. -/
lemma isBelow_ofComponents_iff (hn : ∀ n ∈ ns, Proper n ∧ '/' ∉ n.toList) (hm : ∀ m ∈ ms, Proper m ∧ '/' ∉ m.toList) :
    isBelow (ofComponents ns) (ofComponents ms) = true ↔ ns <+: ms ∧ (ns = [] → ms = []) := by
  by_cases hne : ns = []
  · subst hne
    refine ⟨fun h => ⟨List.nil_prefix, fun _ => ?_⟩, fun h => by rw [h.2 rfl]; rfl⟩
    obtain h | ⟨r, hr⟩ := isBelow_iff.1 h
    · exact (ofComponents_eq_empty_iff hm).1 h
    · have hrel := not_isAbsolute_ofComponents hm
      rw [hr] at hrel
      exact absurd hrel (by simp [ofComponents, Text.joinWith, isAbsolute, String.toList_append])
  · refine ⟨fun h => ⟨?_, fun h0 => absurd h0 hne⟩, fun h => isBelow_ofComponents hne h.1⟩
    have hns := components_ofComponents hne fun n h => (hn n h).2
    have hms : ms ≠ [] → components (ofComponents ms) = ms := fun hne =>
      components_ofComponents hne fun m h => (hm m h).2
    obtain h | ⟨r, hr⟩ := isBelow_iff.1 h
    · have hmne : ms ≠ [] := fun h0 => hne ((ofComponents_eq_empty_iff hn).1 (by rw [← h, h0]; rfl))
      rw [← hns, ← hms hmne, h]
    · have hmne : ms ≠ [] := by
        rintro rfl
        simpa [ofComponents, Text.joinWith] using congrArg String.toList hr
      rw [← hns, ← hms hmne, hr, components_slash]
      exact List.prefix_append _ _

end

/-- A relative path that is seen from another one starts with its slashes. -/
lemma leadingSlashes_join {s path : String} (hs : isAbsolute s = true) (hpath : isAbsolute path = false) :
    leadingSlashes (join (normal s) path) = leadingSlashes s := by
  obtain ⟨hnormal, hl⟩ := normal_absolute hs
  have hrel : ¬ isAbsolute path = true := by simp [hpath]
  by_cases htop : ofComponents (lexical s) = ""
  · rw [hnormal, htop, String.append_empty, join, if_neg hrel, if_pos, leadingSlashes_append hl hpath]
    rcases hl with hl | hl
    · rw [hl]
      decide
    · rw [hl]
      decide
  · -- The first name stands between the slashes and all that comes after it.
    have hrest : ∀ r, leadingSlashes (normal s ++ r) = leadingSlashes s := by
      intro r
      have hrel' : isAbsolute (ofComponents (lexical s) ++ r) = false := by
        rw [isAbsolute_append_of_ne r htop]
        exact not_isAbsolute_ofComponents (names_lexical s)
      rw [hnormal, String.append_assoc, leadingSlashes_append hl hrel']
    rw [join, if_neg hrel]
    split
    · exact hrest path
    · rw [String.append_assoc]
      exact hrest _

/-- A relative path that stays below the root of all files, by its text, does not leave it. -/
lemma lexical_of_isBelow_top {s path : String} (hs : isAbsolute s = true) (htop : lexical s = [])
    (hpath : isAbsolute path = false) (h : isBelow (normal s) (normal (join (normal s) path)) = true) :
    lexical (join (normal s) path) = [] := by
  have hnormal := (normal_absolute (isAbsolute_join path (isAbsolute_normal hs))).1
  have hnames := names_lexical (join (normal s) path)
  rw [hnormal, leadingSlashes_join hs hpath] at h
  generalize lexical (join (normal s) path) = ns at h hnames ⊢
  rw [(normal_absolute hs).1, htop, isBelow_append,
    isBelow_ofComponents_iff (fun n hn => absurd hn List.not_mem_nil) hnames] at h
  exact h.2 rfl

/-! ### Directories of paths -/

/-- The directory of an absolute path is a slash or more, or the path goes on with a slash after it. -/
lemma parent_cases {s : String} (h : isAbsolute s = true) :
    isAbsolute (parent s) = true ∧ ((∀ c ∈ (parent s).toList, c = '/') ∨ ∃ r, s = parent s ++ "/" ++ r) := by
  obtain ⟨l, hl⟩ := List.head?_eq_some_iff.1 (beq_iff_eq.1 h)
  have hmem : '/' ∈ s.toList.reverse := by simp [hl]
  obtain ⟨a, b, hs, ha⟩ := List.eq_append_cons_of_mem hmem
  have hsplit : s.toList = (b.reverse ++ ['/']) ++ a.reverse := by
    rw [← List.reverse_reverse s.toList, hs]
    simp
  have hraw : s.toList.take (s.toList.length - a.reverse.length) = b.reverse ++ ['/'] := by
    rw [hsplit, List.length_append, Nat.add_sub_cancel, List.take_left]
  have hparent : parent s = String.ofList (if (b.reverse ++ ['/']).all (· == '/') then b.reverse ++ ['/']
      else Text.dropEndWhile (· == '/') (b.reverse ++ ['/'])) := by
    rw [parent, splitLast, hs]
    simp only [takeWhile_ne ha, hraw]
  rw [hparent]
  split
  · rename_i hall
    rw [isAbsolute, String.toList_ofList]
    have hslash : ∀ c ∈ b.reverse ++ ['/'], c = '/' := fun c hc => beq_iff_eq.1 (List.all_eq_true.1 hall c hc)
    refine ⟨?_, .inl hslash⟩
    rcases hb : b.reverse with _ | ⟨c, r⟩
    · rfl
    · rw [hb] at hslash
      simp [hslash c (by simp)]
  · rename_i hall
    -- The slashes after it are dropped, one of them at least.
    have hdrop : Text.dropEndWhile (· == '/') (b.reverse ++ ['/']) = (b.dropWhile (· == '/')).reverse := by
      simp [Text.dropEndWhile]
    have hb : b.reverse = (b.dropWhile (· == '/')).reverse ++ (b.takeWhile (· == '/')).reverse := by
      rw [← List.reverse_append, List.takeWhile_append_dropWhile]
    have hslash : ∀ c ∈ (b.takeWhile (· == '/')).reverse ++ ['/'], c = '/' := by
      intro c hc
      rcases List.mem_append.1 hc with hc | hc
      · exact beq_iff_eq.1 (List.all_eq_true.1 List.all_takeWhile c (List.mem_reverse.1 hc))
      · exact List.mem_singleton.1 hc
    obtain ⟨c, e, he⟩ := List.exists_cons_of_ne_nil
      (List.append_ne_nil_of_right_ne_nil (b.takeWhile (· == '/')).reverse (List.cons_ne_nil '/' []))
    rw [he] at hslash
    obtain rfl := hslash c List.mem_cons_self
    have hs' : s.toList = (b.dropWhile (· == '/')).reverse ++ '/' :: (e ++ a.reverse) := by
      rw [hsplit, hb, List.append_assoc (b.dropWhile _).reverse, he]
      simp
    rw [hdrop]
    have hne : (b.dropWhile (· == '/')).reverse ≠ [] := by
      intro h0
      refine hall (List.all_eq_true.2 fun c hc => ?_)
      rw [hb, h0, List.nil_append, he] at hc
      exact beq_iff_eq.2 (hslash c hc)
    refine ⟨?_, .inr ?_⟩
    · obtain ⟨c, r, hr⟩ := List.exists_cons_of_ne_nil hne
      rw [hr, hl] at hs'
      rw [isAbsolute, String.toList_ofList, hr, List.head?_cons, ← (List.cons.inj hs').1]
      rfl
    · refine ⟨String.ofList (e ++ a.reverse), String.toList_inj.1 ?_⟩
      rw [hs']
      simp [String.toList_append]

/-- The directory of a clear path is clear, and the path leads through it, further on if it has a name. -/
lemma clear_parent {s : String} (h : Clear s) :
    Clear (parent s) ∧ ∃ ns, lexical s = lexical (parent s) ++ ns ∧ (name s ≠ "" → ns ≠ []) := by
  obtain ⟨cs, hcs⟩ := components_eq_name s
  obtain ⟨habs, hall | ⟨r, hr⟩⟩ := parent_cases h.absolute
  · have hempty : ∀ c ∈ components (parent s), c = "" := by
      intro c hc
      obtain ⟨hslash, hmem⟩ := of_mem_components hc
      rw [← String.toList_inj]
      exact List.eq_nil_iff_forall_not_mem.2 fun x hx => hslash (hall x (hmem x hx) ▸ hx)
    have hclear : Clear (parent s) := ⟨habs, fun c hc => .inl (hempty c hc)⟩
    refine ⟨hclear, lexical s, ?_, fun hn h0 => ?_⟩
    · rw [hclear.lexical, List.filter_eq_nil_iff.2 fun c hc => by simp [hempty c hc], List.nil_append]
    · rw [h.lexical, List.filter_eq_nil_iff] at h0
      exact h0 (name s) (by simp [hcs]) (by simpa using hn)
  · have hsplit : components s = components (parent s) ++ components r := by
      rw [← components_slash, ← hr]
    have hclear : Clear (parent s) := ⟨habs, fun c hc => h.proper c (by
      rw [hsplit]
      exact List.mem_append_left _ hc)⟩
    refine ⟨hclear, (components r).filter (· != ""), ?_, fun hn h0 => ?_⟩
    · rw [h.lexical, hclear.lexical, hsplit, List.filter_append]
    · have hlast : (components r).getLast? = some (name s) := by
        rw [← List.getLast?_append_of_ne_nil (components (parent s)) (components_ne_nil r), ← hsplit, hcs,
          List.getLast?_concat]
      exact List.filter_eq_nil_iff.1 h0 (name s) (List.mem_of_getLast? hlast) (by simpa using hn)

/-- A name below a path that does not end with a slash stands after one, and the path is its directory. -/
lemma parent_join {dir n : String} (hne : dir ≠ "") (hlast : dir.toList.getLast? ≠ some '/') (hs : '/' ∉ n.toList) :
    parent (join dir n) = dir := by
  have hjoin : join dir n = dir ++ "/" ++ n := by
    rw [join, if_neg (by simp [isAbsolute_of_slashless hs]), if_neg (by simp [hne, hlast])]
  have htake : ((join dir n).toList.reverse.takeWhile (· != '/')).reverse = n.toList := by
    rw [hjoin]
    have hrev : (dir ++ "/" ++ n).toList.reverse = n.toList.reverse ++ '/' :: dir.toList.reverse := by
      simp [String.toList_append]
    rw [hrev, takeWhile_ne fun h => hs (List.mem_reverse.1 h), List.reverse_reverse]
  have hhead : (join dir n).toList.take ((join dir n).toList.length - n.toList.length) = dir.toList ++ ['/'] := by
    rw [hjoin]
    have hsplit : (dir ++ "/" ++ n).toList = (dir.toList ++ ['/']) ++ n.toList := by simp [String.toList_append]
    rw [hsplit, List.length_append, Nat.add_sub_cancel, List.take_left]
  obtain ⟨c, hc⟩ : ∃ c, dir.toList.getLast? = some c :=
    Option.ne_none_iff_exists'.1 (by simpa using hne)
  obtain ⟨l, hl⟩ := List.getLast?_eq_some_iff.1 hc
  have hslash : c ≠ '/' := fun h => hlast (h ▸ hc)
  rw [parent, splitLast]
  simp only [htake, hhead]
  rw [if_neg, ← String.toList_inj, String.toList_ofList]
  · simp [Text.dropEndWhile, hl, hslash]
  · simp [hl, hslash]

/-- The normal form of a path to a place below the root has a name. -/
lemma name_normal {s : String} (h : isAbsolute s = true) (hne : lexical s ≠ []) : name (normal s) ≠ "" := by
  obtain ⟨cs, hcs⟩ := components_eq_name (normal s)
  obtain ⟨k, hk⟩ := components_normal h
  have hlast : (lexical s).getLast? = some (name (normal s)) := by
    rw [← List.getLast?_append_of_ne_nil (List.replicate k "") hne, ← hk, hcs, List.getLast?_concat]
  exact (mem_lexical (List.mem_of_getLast? hlast)).1.1

/-- The directory of a path in normal form is in normal form. -/
lemma parent_normal {s n : String} {q : List String} (h : isAbsolute s = true) (hq : q ≠ [])
    (hl : lexical s = q ++ [n]) : ∃ d, parent (normal s) = normal d ∧ isAbsolute d = true ∧ lexical d = q := by
  obtain ⟨hnormal, hslashes⟩ := normal_absolute h
  have hnames : ∀ m ∈ q ++ [n], Proper m ∧ '/' ∉ m.toList := hl ▸ names_lexical s
  have hfront : ∀ m ∈ q, Proper m ∧ '/' ∉ m.toList := fun m hm => hnames m (List.mem_append_left _ hm)
  have hslash : '/' ∉ n.toList := (hnames n (List.mem_append_right _ List.mem_cons_self)).2
  obtain ⟨d, hd⟩ : ∃ d, d = leadingSlashes s ++ ofComponents q := ⟨_, rfl⟩
  have habs : isAbsolute d = true := by
    rcases hslashes with hs | hs
    · rw [hd, hs, isAbsolute_append_of_ne _ (by decide)]
      exact isAbsolute_root
    · rw [hd, hs, isAbsolute_append_of_ne _ (by decide)]
      decide
  have hlexical : lexical d = q := hd ▸ lexical_slashes hslashes hfront
  have hself : normal d = d := by
    rw [(normal_absolute habs).1, hlexical, hd, leadingSlashes_append hslashes (not_isAbsolute_ofComponents hfront)]
  have hlast : d.toList.getLast? ≠ some '/' := getLast?_of_name (hself ▸ name_normal habs (hlexical ▸ hq))
  have hne : d ≠ "" := fun h0 => absurd (h0 ▸ habs) nofun
  have hjoin : normal s = join d n := by
    rw [join, if_neg (by simp [isAbsolute_of_slashless hslash]), if_neg (by simp [hne, hlast]), hnormal, hl,
      ofComponents_append hq (List.cons_ne_nil n []), ofComponents_singleton, hd]
    simp only [String.append_assoc]
  refine ⟨d, ?_, habs, hlexical⟩
  rw [hjoin, hself, parent_join hne hlast hslash]

lemma getLast?_components_normal {s : String} (h : isAbsolute s = true) (hne : lexical (normal s) ≠ []) :
    (components (normal s)).getLast? ≠ some "" := by
  obtain ⟨cs, hcs⟩ := components_eq_name (normal s)
  rw [lexical_normal h] at hne
  rw [hcs, List.getLast?_concat]
  exact fun hlast => name_normal h hne (Option.some.inj hlast)

/-! ### Plain texts -/

/-- Names with slashes between them. -/
def Plain (text : String) : Prop :=
  ∃ d : List String, d ≠ [] ∧ (∀ n ∈ d, Proper n ∧ '/' ∉ n.toList) ∧ text = ofComponents d

/-! ### Level paths -/

/-- A path that climbs nowhere and ends with a name. -/
structure Level (s : String) : Prop where
  climbs : ".." ∉ components s
  named : Proper (name s)

/-- Components that climb nowhere are pushed as they are, the empty ones and the single dots apart. -/
lemma foldl_pushComponent_level {st cs : List String} (h : ".." ∉ cs) :
    cs.foldl (pushComponent true) st = (cs.filter fun c => c != "" && c != ".").reverse ++ st := by
  induction cs generalizing st with
  | nil => rfl
  | cons c cs ih =>
    obtain ⟨hc, hcs⟩ := not_or.1 (mt List.mem_cons.2 h)
    rw [List.foldl_cons, ih hcs]
    by_cases hdot : c = "" ∨ c = "."
    · rcases hdot with rfl | rfl <;> rfl
    · obtain ⟨h1, h2⟩ := not_or.1 hdot
      rw [pushComponent_proper ⟨h1, h2, Ne.symm hc⟩, List.filter_cons_of_pos (by simp [h1, h2]), List.reverse_cons,
        List.append_assoc, List.singleton_append]

lemma Level.join {dir f : String} (hf : Level f) (hd : Clear dir) : Level (join dir f) := by
  obtain ⟨ms, hms⟩ := components_eq_name f
  obtain ⟨cs, hcs⟩ := components_eq_name (Path.join dir f)
  have hall : ∃ ds, components (Path.join dir f) = ds ++ components f ∧ ".." ∉ ds := by
    by_cases habs : isAbsolute f = true
    · exact ⟨[], by rw [Path.join, if_pos habs, List.nil_append], List.not_mem_nil⟩
    · obtain ⟨ds, hds, hdir⟩ := components_join hd.ne_empty (Bool.eq_false_iff.2 habs)
      refine ⟨ds, hds, fun h => ?_⟩
      rcases hd.proper ".." (by rcases hdir with hdir | hdir <;> simp [hdir, h]) with h0 | h0
      · exact absurd h0 (by decide)
      · exact h0.2.2 rfl
  obtain ⟨ds, hds, hup⟩ := hall
  have hname : name (Path.join dir f) = name f := by
    rw [hcs, hms, ← List.append_assoc] at hds
    exact (List.append_singleton_inj.1 hds).2
  constructor
  · rw [hds, List.mem_append, not_or]
    exact ⟨hup, hf.climbs⟩
  · rw [hname]
    exact hf.named

/-! ### Places beside each other -/

/-- Two stacks that differ in one component above the same ones stay so, or become one. -/
lemma foldl_beside {x y : String} (hx : x ≠ "..") (hy : y ≠ "..") (s cs r : List String) :
    (∃ r', cs.foldl (pushComponent true) (r ++ x :: s) = r' ++ x :: s ∧
      cs.foldl (pushComponent true) (r ++ y :: s) = r' ++ y :: s) ∨
    cs.foldl (pushComponent true) (r ++ x :: s) = cs.foldl (pushComponent true) (r ++ y :: s) := by
  induction cs generalizing r with
  | nil => exact .inl ⟨r, rfl, rfl⟩
  | cons c cs ih =>
    rw [List.foldl_cons, List.foldl_cons]
    by_cases hdot : c = "" ∨ c = "."
    · have hsame : ∀ st, pushComponent true st c = st := fun st => by rcases hdot with rfl | rfl <;> rfl
      rw [hsame, hsame]
      exact ih r
    · obtain ⟨h1, h2⟩ := not_or.1 hdot
      by_cases hup : c = ".."
      · subst hup
        have hpop : ∀ (d : String) (st : List String), pushComponent true (d :: st) ".." =
            if d = ".." then ".." :: d :: st else st := fun d st => by simp [pushComponent]
        rcases r with _ | ⟨d, r⟩
        · rw [List.nil_append, List.nil_append, hpop, hpop, if_neg hx, if_neg hy]
          exact .inr rfl
        · rw [List.cons_append, List.cons_append, hpop, hpop]
          split
          · exact ih (".." :: d :: r)
          · exact ih r
      · rw [pushComponent_proper ⟨h1, h2, hup⟩, pushComponent_proper ⟨h1, h2, hup⟩]
        exact ih (c :: r)

lemma pushComponent_up {st : List String} (h : ∀ n ∈ st, Proper n) : pushComponent true st ".." = st.tail := by
  rcases st with _ | ⟨d, st⟩
  · rfl
  · simp [pushComponent, (h d List.mem_cons_self).2.2]

/-- Components take some names back from every stack, and then put the same names on it. -/
lemma exists_foldl_pushComponent (cs : List String) : ∃ q k, (∀ n ∈ q, Proper n) ∧
    ∀ s : List String, (∀ n ∈ s, Proper n) → cs.foldl (pushComponent true) s = q ++ s.drop k := by
  induction cs using List.reverseRecOn with
  | nil => exact ⟨[], 0, fun _ hn => absurd hn List.not_mem_nil, fun s _ => rfl⟩
  | append_singleton cs c ih =>
    obtain ⟨q, k, hq, hall⟩ := ih
    have hlast : ∀ s : List String, (∀ n ∈ s, Proper n) →
        (cs ++ [c]).foldl (pushComponent true) s = pushComponent true (q ++ s.drop k) c := fun s hs => by
      rw [List.foldl_append, hall s hs, List.foldl_cons, List.foldl_nil]
    by_cases hdot : c = "" ∨ c = "."
    · exact ⟨q, k, hq, fun s hs => by rw [hlast s hs]; rcases hdot with rfl | rfl <;> rfl⟩
    · obtain ⟨h1, h2⟩ := not_or.1 hdot
      by_cases hup : c = ".."
      · refine ⟨q.tail, if q = [] then k + 1 else k, fun n hn => hq n (List.mem_of_mem_tail hn), fun s hs => ?_⟩
        have hstack : ∀ n ∈ q ++ s.drop k, Proper n := fun n hn =>
          (List.mem_append.1 hn).elim (hq n) fun h => hs n (List.mem_of_mem_drop h)
        rw [hlast s hs, hup, pushComponent_up hstack]
        rcases q with _ | ⟨d, q⟩
        · simp
        · simp
      · refine ⟨c :: q, k, List.forall_mem_cons.2 ⟨⟨h1, h2, hup⟩, hq⟩, fun s hs => ?_⟩
        rw [hlast s hs, pushComponent_proper ⟨h1, h2, hup⟩, List.cons_append]

/-- A path that is seen from another one takes some of its last names back, and then adds names that do not depend
on it. -/
lemma exists_lexical_join {b : String} (hb : isAbsolute b = false) :
    ∃ q k, ∀ a, a ≠ "" → lexical (join a b) = (lexical a).rdrop k ++ q := by
  obtain ⟨q, k, -, hall⟩ := exists_foldl_pushComponent (components b)
  refine ⟨q.reverse, k, fun a ha => ?_⟩
  rw [lexical_join ha hb, hall _ fun n hn => (mem_lexical (List.mem_reverse.1 hn)).1, List.reverse_append,
    List.rdrop_eq_reverse_drop_reverse]

end Path

end Ratchet
