import Mathlib.Tactic
import Ratchet.Path

/-!
Paths that are cleaned twice.

Cleaning goes through a path once: blanks and then quotes are taken off its ends, backslashes become slashes, the path
of the workspace is taken off its front, and then `./` as often as it stands there. What is taken off can lay bare what
an earlier step would have taken: blanks between quotes, or a second path of the workspace. `clean_clean_iff` says that
a path is the same when it is cleaned again unless that happens, and `clean_clean_of_tidy` that it does not happen to a
path without blanks at its ends whose names start with neither a blank nor a quote.
-/

namespace Ratchet

namespace Text

/-- Whether `p` accepts the character at neither end of a text. -/
structure Trimmed (p : Char → Bool) (s : List Char) : Prop where
  first : ∀ c ∈ s.head?, p c = false
  last : ∀ c ∈ s.getLast?, p c = false

variable {p : Char → Bool}

lemma isPrefix_dropEndWhile (s : List Char) : dropEndWhile p s <+: s := by
  rw [dropEndWhile, ← List.reverse_suffix, List.reverse_reverse]
  exact List.dropWhile_suffix p

lemma isInfix_trimWhile (s : List Char) : trimWhile p s <:+: s :=
  (isPrefix_dropEndWhile _).isInfix.trans (List.dropWhile_suffix p).isInfix

lemma dropWhile_eq_self {s : List Char} (h : ∀ c ∈ s.head?, p c = false) : s.dropWhile p = s := by
  cases s with
  | nil => rfl
  | cons c s => rw [List.dropWhile_cons_of_neg (by simp [h c rfl])]

lemma dropWhile_head {s : List Char} : ∀ c ∈ (s.dropWhile p).head?, p c = false := by
  intro c hc
  have h := List.head?_dropWhile_not p s
  rw [hc] at h
  simpa using h

lemma trimmed_trimWhile (s : List Char) : Trimmed p (trimWhile p s) where
  first := by
    intro c hc
    refine dropWhile_head (p := p) (s := s) c ?_
    obtain ⟨r, hr⟩ := isPrefix_dropEndWhile (p := p) (s.dropWhile p)
    rw [trimWhile] at hc
    rw [← hr, List.head?_append, hc, Option.some_or]
    rfl
  last := by
    intro c hc
    rw [trimWhile, dropEndWhile, List.getLast?_reverse] at hc
    exact dropWhile_head c hc

/-- Trimming leaves a text as it is when there is nothing to trim at its ends. -/
lemma trimWhile_eq_self_iff {s : List Char} : trimWhile p s = s ↔ Trimmed p s := by
  constructor
  · intro h
    exact h ▸ trimmed_trimWhile s
  · rintro ⟨hfirst, hlast⟩
    rw [trimWhile, dropWhile_eq_self hfirst, dropEndWhile, dropWhile_eq_self, List.reverse_reverse]
    rwa [List.head?_reverse]

/-- The end of a text that has nothing to trim has nothing to trim at its own end. -/
lemma Trimmed.of_append {a s : List Char} (h : Trimmed p (a ++ s)) (hfirst : ∀ c ∈ s.head?, p c = false) :
    Trimmed p s :=
  ⟨hfirst, fun c hc => h.last c (by rw [List.getLast?_append, hc, Option.some_or]; rfl)⟩

lemma not_mem_replaceChar {a b : Char} (hab : b ≠ a) (s : List Char) : a ∉ replaceChar a b s := by
  intro h
  obtain ⟨c, -, hc⟩ := List.mem_map.1 h
  split at hc
  · exact hab hc
  · rename_i hne
    exact hne (beq_iff_eq.2 hc)

lemma replaceChar_eq_self {a b : Char} {s : List Char} (h : a ∉ s) : replaceChar a b s = s := by
  refine (List.map_congr_left fun c hc => ?_).trans (List.map_id s)
  rw [if_neg]
  · rfl
  · exact fun hca => h (beq_iff_eq.1 hca ▸ hc)

end Text

namespace Path

open Text

/-! ### The steps of cleaning -/

/-- The quotes that may stand around a path. -/
def isQuotation (c : Char) : Bool := c == '\'' || c == '"'

/-- A path without the blanks and then the quotes around it, with forward slashes. -/
def stripped (raw : List Char) : List Char := replaceChar '\\' '/' (trimWhile isQuotation (trimList raw))

/-- What the paths in a workspace start with. -/
def front (here workspace : String) : List Char :=
  dropEndWhile (· == '/') (replaceChar '\\' '/' (absolute here workspace).toList) ++ ['/']

/-- A path without its workspace in front. -/
def unfronted (here workspace : String) (s : List Char) : List Char :=
  if workspace.isEmpty then s else (dropStart? (front here workspace) s).getD s

variable {here workspace : String}

lemma toList_clean (raw : String) :
    (clean here workspace raw).toList = dropDots (unfronted here workspace (stripped raw.toList)) :=
  String.toList_ofList

lemma length_stripped (s : List Char) : (stripped s).length = (trimWhile isQuotation (trimList s)).length :=
  List.length_map ..

/-- No quote is left at the ends of a path. -/
lemma trimmed_stripped (s : List Char) : Trimmed isQuotation (stripped s) := by
  obtain ⟨hfirst, hlast⟩ := trimmed_trimWhile (p := isQuotation) (trimList s)
  have hslash : ∀ c, isQuotation c = false → isQuotation (if c == '\\' then '/' else c) = false := by
    intro c hc
    split
    · rfl
    · exact hc
  constructor
  · intro c hc
    rw [stripped, replaceChar, List.head?_map] at hc
    obtain ⟨d, hd, rfl⟩ := Option.map_eq_some_iff.1 hc
    exact hslash d (hfirst d hd)
  · intro c hc
    rw [stripped, replaceChar, List.getLast?_map] at hc
    obtain ⟨d, hd, rfl⟩ := Option.map_eq_some_iff.1 hc
    exact hslash d (hlast d hd)

lemma unfronted_suffix (here workspace : String) (s : List Char) : unfronted here workspace s <:+ s := by
  unfold unfronted dropStart?
  split
  · exact List.suffix_rfl
  · split
    · rw [Option.getD_some]
      exact List.drop_suffix _ s
    · rw [Option.getD_none]

/-- Nothing is taken off the front when no workspace stands there. -/
lemma unfronted_eq_self_iff {s : List Char} :
    unfronted here workspace s = s ↔ (workspace ≠ "" → ¬ front here workspace <+: s) := by
  unfold unfronted dropStart?
  split
  · rename_i h
    exact iff_of_true rfl fun hne => absurd (String.isEmpty_iff.1 h) hne
  · rename_i h
    have hne : workspace ≠ "" := fun h0 => h (String.isEmpty_iff.2 h0)
    split
    · rename_i hfront
      have hfront := List.isPrefixOf_iff_prefix.1 hfront
      refine iff_of_false (fun hdrop => ?_) fun hnot => hnot hne hfront
      have hlength := congrArg List.length hdrop
      have hle := hfront.length_le
      rw [Option.getD_some, List.length_drop] at hlength
      rw [front, List.length_append, List.length_singleton] at hlength hle
      omega
    · rename_i hfront
      exact iff_of_true rfl fun _ hprefix => hfront (List.isPrefixOf_iff_prefix.2 hprefix)

lemma dropDots_suffix (s : List Char) : dropDots s <:+ s := by
  fun_induction dropDots s with
  | case1 s ih => exact ih.trans (List.suffix_append ['.', '/'] s)
  | case2 s => exact List.suffix_rfl

lemma not_prefix_dropDots (s : List Char) : ¬ ['.', '/'] <+: dropDots s := by
  fun_induction dropDots s with
  | case1 s ih => exact ih
  | case2 s h =>
    rintro ⟨r, rfl⟩
    exact h r rfl

lemma dropDots_eq_self {s : List Char} (h : ¬ ['.', '/'] <+: s) : dropDots s = s := by
  fun_induction dropDots s with
  | case1 s => exact absurd (List.prefix_append ['.', '/'] s) h
  | case2 s => rfl

/-! ### Cleaning again -/

/-- A path that has nothing to be taken off its ends. -/
structure Neat (here workspace path : String) : Prop where
  unblank : Trimmed isBlank path.toList
  unquoted : Trimmed isQuotation path.toList
  relative : workspace ≠ "" → ¬ front here workspace <+: path.toList

/-- Cleaning leaves a path as it is when no step takes anything off it. -/
lemma clean_eq_self_iff {path : String} : clean here workspace path = path ↔
    Neat here workspace path ∧ '\\' ∉ path.toList ∧ ¬ ['.', '/'] <+: path.toList := by
  rw [← String.toList_inj, toList_clean]
  set s := path.toList with hs
  constructor
  · intro h
    -- No step makes a path longer, so none can have made it shorter.
    have hdots : s.length ≤ (unfronted here workspace (stripped s)).length := by
      rw [← congrArg List.length h]
      exact (dropDots_suffix _).length_le
    have hfront := (unfronted_suffix here workspace (stripped s)).length_le
    have htrim : trimWhile isQuotation (trimList s) = s := by
      have hinfix : trimWhile isQuotation (trimList s) <:+: s := (isInfix_trimWhile _).trans (isInfix_trimWhile s)
      exact hinfix.eq_of_length_le (length_stripped s ▸ hdots.trans hfront)
    have hblank : trimList s = s := by
      refine (isInfix_trimWhile s).eq_of_length_le ?_
      rw [← congrArg List.length htrim]
      exact (isInfix_trimWhile _).length_le
    have hquote : Trimmed isQuotation s := htrim ▸ trimmed_trimWhile (trimList s)
    have hstripped : stripped s = replaceChar '\\' '/' s := by rw [stripped, htrim]
    have hlength : (stripped s).length = s.length := by rw [length_stripped, htrim]
    have hunfronted : unfronted here workspace (stripped s) = stripped s :=
      (unfronted_suffix _ _ _).eq_of_length_le (hlength.le.trans hdots)
    have hself : stripped s = s := by
      rw [hunfronted] at h
      rw [← (dropDots_suffix (stripped s)).eq_of_length_le (by rw [h, hlength]), h]
    rw [hself] at hunfronted hstripped
    refine ⟨⟨trimWhile_eq_self_iff.1 hblank, hquote, unfronted_eq_self_iff.1 hunfronted⟩, ?_, ?_⟩
    · rw [hstripped]
      exact not_mem_replaceChar (by decide) s
    · rw [hself, hunfronted] at h
      exact h ▸ not_prefix_dropDots s
  · rintro ⟨hneat, hslash, hdots⟩
    have estripped : stripped s = s := by
      rw [stripped, trimList, trimWhile_eq_self_iff.2 hneat.unblank, trimWhile_eq_self_iff.2 hneat.unquoted,
        replaceChar_eq_self hslash]
    rw [estripped, unfronted_eq_self_iff.2 hneat.relative, dropDots_eq_self hdots]

/-- No backslash is left in a path. -/
lemma slashed_clean (raw : String) : '\\' ∉ (clean here workspace raw).toList := by
  rw [toList_clean]
  intro hmem
  exact not_mem_replaceChar (by decide) _ ((unfronted_suffix _ _ _).subset ((dropDots_suffix _).subset hmem))

lemma undotted_clean (raw : String) : ¬ ['.', '/'] <+: (clean here workspace raw).toList := by
  rw [toList_clean]
  exact not_prefix_dropDots _

/-- **Cleaning a path again.** A path that was cleaned stays the same when it is cleaned again if nothing was laid bare:
if it has neither blanks nor quotes at its ends, and not the workspace's own path in front. -/
theorem clean_clean_iff (here workspace raw : String) :
    clean here workspace (clean here workspace raw) = clean here workspace raw ↔
      Neat here workspace (clean here workspace raw) :=
  clean_eq_self_iff.trans (and_iff_left ⟨slashed_clean raw, undotted_clean raw⟩)

/-- Blanks between quotes are laid bare, and taken off only when the path is cleaned again. -/
theorem not_clean_clean_quoted :
    clean "/" "/work/app" (clean "/" "/work/app" "' src/a.ts '") ≠ clean "/" "/work/app" "' src/a.ts '" := by
  decide

/-! ### Tidy paths -/

/-- What is taken off the front of a path ends with a slash. -/
lemma unfronted_cut (here workspace : String) (s : List Char) :
    ∃ a, s = a ++ unfronted here workspace s ∧ (a = [] ∨ ∃ r, a = r ++ ['/']) := by
  by_cases h : unfronted here workspace s = s
  · exact ⟨[], h.symm, .inl rfl⟩
  · rw [unfronted_eq_self_iff, Classical.not_imp, not_not] at h
    obtain ⟨hne, t, rfl⟩ := h
    have hdrop : unfronted here workspace (front here workspace ++ t) = t := by
      rw [unfronted, if_neg (mt String.isEmpty_iff.1 hne), dropStart?,
        if_pos (List.isPrefixOf_iff_prefix.2 (List.prefix_append _ t)), List.drop_left, Option.getD_some]
    exact ⟨front here workspace, by rw [hdrop], .inr ⟨_, rfl⟩⟩

lemma dropDots_cut (s : List Char) : ∃ a, s = a ++ dropDots s ∧ (a = [] ∨ ∃ r, a = r ++ ['/']) := by
  fun_induction dropDots s with
  | case1 s ih =>
    obtain ⟨a, ha, rfl | ⟨r, rfl⟩⟩ := ih
    · exact ⟨['.', '/'], by rw [← ha.trans (List.nil_append _)]; rfl, .inr ⟨['.'], rfl⟩⟩
    · exact ⟨'.' :: '/' :: (r ++ ['/']), by rw [List.cons_append, List.cons_append, ← ha], .inr ⟨'.' :: '/' :: r, rfl⟩⟩
  | case2 s => exact ⟨[], rfl, .inl rfl⟩

lemma head?_front (hh : isAbsolute here = true) : (front here workspace).head? = some '/' := by
  obtain ⟨l, hl⟩ := List.head?_eq_some_iff.1 (beq_iff_eq.1 (isAbsolute_absolute workspace hh))
  have hslash : (replaceChar '\\' '/' (absolute here workspace).toList).head? = some '/' := by
    rw [hl]
    rfl
  obtain ⟨r, hr⟩ := isPrefix_dropEndWhile (p := (· == '/')) (replaceChar '\\' '/' (absolute here workspace).toList)
  rw [front]
  rcases hd : dropEndWhile (· == '/') (replaceChar '\\' '/' (absolute here workspace).toList) with _ | ⟨c, d⟩
  · rfl
  · rw [hd] at hr
    rw [← hr] at hslash
    exact hslash

/-- A relative path without blanks and quotes at its ends, without backslashes, and without a dot and a slash at the
start. -/
structure Clean (path : String) : Prop where
  relative : isAbsolute path = false
  unblank : Trimmed isBlank path.toList
  unquoted : Trimmed isQuotation path.toList
  slashed : '\\' ∉ path.toList
  undotted : ¬ ['.', '/'] <+: path.toList

/-- A text without blanks, quotes and slashes of either kind is clean. -/
lemma Clean.of_all {n : String}
    (h : (n.toList.all fun c => c != '/' && c != '\\' && !isBlank c && !isQuotation c) = true) : Clean n := by
  have hall : ∀ c ∈ n.toList, c ≠ '/' ∧ c ≠ '\\' ∧ isBlank c = false ∧ isQuotation c = false := fun c hc => by
    simpa [and_assoc] using List.all_eq_true.1 h c hc
  refine ⟨Bool.eq_false_iff.2 fun habs => ?_, ⟨fun c hc => ?_, fun c hc => ?_⟩, ⟨fun c hc => ?_, fun c hc => ?_⟩,
    fun hc => (hall _ hc).2.1 rfl, fun hdots => ?_⟩
  · exact (hall '/' (List.mem_of_mem_head? (beq_iff_eq.1 habs))).1 rfl
  · exact (hall c (List.mem_of_mem_head? hc)).2.2.1
  · exact (hall c (List.mem_of_getLast? hc)).2.2.1
  · exact (hall c (List.mem_of_mem_head? hc)).2.2.2
  · exact (hall c (List.mem_of_getLast? hc)).2.2.2
  · obtain ⟨r, hr⟩ := hdots
    exact (hall '/' (by simp [← hr])).1 rfl

/-- Nothing is taken off a clean path, whatever the workspace is. -/
lemma Clean.clean_eq {path : String} (h : Clean path) (hh : isAbsolute here = true) :
    clean here workspace path = path := by
  refine clean_eq_self_iff.2 ⟨⟨h.unblank, h.unquoted, fun _ hfront => ?_⟩, h.slashed, h.undotted⟩
  obtain ⟨r, hr⟩ := hfront
  have hhead : path.toList.head? = some '/' := by
    rw [← hr, List.head?_append, head?_front hh]
    rfl
  exact absurd h.relative (by simp [isAbsolute, hhead])

/-- A path without blanks at its ends, the names of which have one slash between them and start with neither a blank
nor a quote. -/
structure Tidy (raw : String) : Prop where
  unblank : Trimmed isBlank (stripped raw.toList)
  names : ∀ a c b, stripped raw.toList = a ++ '/' :: c :: b → c ≠ '/' ∧ isBlank c = false ∧ isQuotation c = false

/-- What is left of a path is all of it, or stands after a slash. -/
lemma stripped_cut (here workspace raw : String) :
    (stripped raw.toList = (clean here workspace raw).toList ∧
      unfronted here workspace (stripped raw.toList) = stripped raw.toList) ∨
    ∃ a, stripped raw.toList = a ++ '/' :: (clean here workspace raw).toList := by
  rw [toList_clean]
  set s := stripped raw.toList
  obtain ⟨a, ha, hacut⟩ := unfronted_cut here workspace s
  obtain ⟨b, hb, hbcut⟩ := dropDots_cut (unfronted here workspace s)
  rcases hbcut with rfl | ⟨r, rfl⟩
  · rw [List.nil_append] at hb
    rcases hacut with rfl | ⟨r, rfl⟩
    · rw [List.nil_append] at ha
      exact .inl ⟨ha.trans hb, ha.symm⟩
    · refine .inr ⟨r, ?_⟩
      rw [← hb]
      simpa using ha
  · refine .inr ⟨a ++ r, ?_⟩
    rw [hb] at ha
    simpa using ha

lemma neat_of_tidy {raw : String} (hh : isAbsolute here = true) (h : Tidy raw) :
    Neat here workspace (clean here workspace raw) := by
  rcases stripped_cut here workspace raw with ⟨hall, hfront⟩ | ⟨a, ha⟩
  · refine ⟨hall ▸ h.unblank, hall ▸ trimmed_stripped _, ?_⟩
    rw [← hall]
    exact unfronted_eq_self_iff.1 hfront
  · -- What is left stands after a slash, so its first character is that of a name.
    set q := (clean here workspace raw).toList with hq
    have hcut : stripped raw.toList = (a ++ ['/']) ++ q := by rw [ha, List.append_assoc, List.singleton_append]
    have hnames : ∀ c ∈ q.head?, c ≠ '/' ∧ isBlank c = false ∧ isQuotation c = false := by
      intro c hc
      obtain ⟨t, ht⟩ := List.head?_eq_some_iff.1 hc
      exact h.names a c t (ht ▸ ha)
    refine ⟨?_, ?_, fun _ hprefix => ?_⟩
    · exact (hcut ▸ h.unblank).of_append fun c hc => (hnames c hc).2.1
    · exact (hcut ▸ trimmed_stripped raw.toList).of_append fun c hc => (hnames c hc).2.2
    · obtain ⟨r, hr⟩ := hprefix
      refine (hnames '/' ?_).1 rfl
      rw [hq, ← hr, List.head?_append, head?_front hh]
      rfl

/-- A tidy path is cleaned once and for all. -/
theorem clean_clean_of_tidy {raw : String} (hh : isAbsolute here = true) (h : Tidy raw) :
    clean here workspace (clean here workspace raw) = clean here workspace raw :=
  clean_eq_self_iff.2 ⟨neat_of_tidy hh h, slashed_clean raw, undotted_clean raw⟩

end Path

end Ratchet
