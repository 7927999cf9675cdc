import Ratchet.Proofs.Tree.Children
import Ratchet.Toolchain.Command

/-!
How the kind of a project is told.

A project is told by what stands directly in its directory. The signs that are patterns are looked for with the
directory's path in front of them, so the names on this path are read as patterns too: they lead to all places whose
names fit them, and not always to the directory itself. `detect_iff` says when the kind is told by the directory.
-/

namespace Ratchet

namespace Text.Wildcard

variable {s x : List Char}

/-- What is no pattern stands for itself, character by character. -/
lemma partsFrom_exact {fuel : Nat} (h : isPattern s = false) (hfuel : s.length ≤ fuel) :
    partsFrom fuel s = s.map .exact := by
  induction s generalizing fuel with
  | nil => cases fuel <;> rfl
  | cons c s ih =>
    obtain ⟨fuel, rfl⟩ : ∃ k, fuel = k + 1 := Nat.exists_eq_add_one.2 (Nat.lt_of_lt_of_le (Nat.zero_lt_succ _) hfuel)
    rw [isPattern, List.any_cons, Bool.or_eq_false_iff] at h
    obtain ⟨hc, hs⟩ := h
    simp only [Bool.or_eq_false_iff] at hc
    rw [partsFrom, hc.1.1, hc.1.2, hc.2]
    simp only [Bool.false_eq_true, if_false, List.map_cons]
    rw [ih hs (Nat.le_of_succ_le_succ hfuel)]

/-- Only a text itself fits what stands for it. -/
lemma fits_exact : fits (s.map .exact) x = true ↔ x = s := by
  induction s generalizing x with
  | nil => rw [List.map_nil, fits, List.isEmpty_iff]
  | cons c s ih =>
    cases x with
    | nil => simp [fits]
    | cons d x =>
      rw [List.map_cons, fits, Bool.and_eq_true, ih, fitsOne, beq_iff_eq, List.cons.injEq]
      exact Part.noConfusion

/-- After a star fits what has an end that fits the rest. -/
lemma fits_many {ps : List Part} : fits (.many :: ps) x = true ↔ ∃ y, y <:+ x ∧ fits ps y = true := by
  induction x with
  | nil =>
    rw [fits]
    simp
  | cons c x ih =>
    rw [fits, Bool.or_eq_true, ih]
    simp only [List.suffix_cons_iff, or_and_right, exists_or, exists_eq_left]

/-- A star and a text fits what ends with the text and does not start with a dot. -/
lemma fitsName_star (h : isPattern s = false) : fitsName ('*' :: s) x = true ↔ x.head? ≠ some '.' ∧ s <:+ x := by
  have hparts : parts ('*' :: s) = .many :: s.map .exact := by
    rw [parts, List.length_cons, partsFrom, if_pos (beq_self_eq_true '*'), partsFrom_exact h (Nat.le_refl _)]
  rw [fitsName, hparts, Bool.and_eq_true, fits_many]
  simp [fits_exact]

end Text.Wildcard

namespace ProjectKind

open Text

variable {t : Tree} {p q r : Place} {root dir sign c n : String} {cs : List String}

/-! ### Kinds by what stands in a directory -/

/-- The ends of the names that a solution and its projects have. -/
def solutionEnds : List String := [".sln", ".csproj", ".fsproj"]

/-- Whether a name is that of a solution or of one of its projects. Hidden names do not count. -/
def isSolution (n : String) : Bool := n.toList.head? != some '.' && solutionEnds.any fun e => e.toList.isSuffixOf n.toList

/-- The kind of a project as the entries of its directory tell it. -/
def kindAt (t : Tree) (p : Place) : Option ProjectKind :=
  if t.hasFile (p ++ ["tsconfig.json"]) then some .typescript
  else if (t.namesAt p).any isSolution then some .dotnet
  else if t.hasFile (p ++ ["package.json"]) then some .typescript
  else none

/-! ### Paths that are read as patterns -/

/-- The places to which components lead from a place when they are read as patterns: what is no pattern leads where it
always leads, and a pattern leads to every entry whose name fits it. -/
inductive Globs (t : Tree) : Place → List String → Place → Prop
  | here {p : Place} : Globs t p [] p
  | plain {p q r : Place} {c : String} {cs : List String} (hc : Wildcard.isPattern c.toList = false)
      (hfollow : t.follow p [c] = .ok q) (hrest : Globs t q cs r) : Globs t p (c :: cs) r
  | pattern {p r : Place} {c n : String} {cs : List String} (hc : Wildcard.isPattern c.toList = true)
      (hn : n ∈ t.namesAt p) (hfits : Wildcard.fitsName c.toList n.toList = true) (hrest : Globs t (p ++ [n]) cs r) :
      Globs t p (c :: cs) r

/-- Components lead to a directory from a directory only. -/
lemma Globs.directory (h : Globs t p cs q) (hq : t.get? q = some .directory) : t.get? p = some .directory := by
  cases h with
  | here => exact hq
  | plain _ hfollow _ => exact (Tree.follow_cons_cases hfollow).1
  | pattern _ hn _ _ => exact Tree.get?_of_namesAt hn

/-- Whether a text can be gone on with: it is the root of all files, or ends with no slash. -/
def Open (dir : String) : Prop := dir = "/" ∨ dir ≠ "" ∧ dir.toList.getLast? ≠ some '/'

/-- A directory with one more component behind it. -/
def further (dir c : String) : String := dir ++ (if dir == "/" then "" else "/") ++ c

lemma open_further (hc : c ≠ "") (hs : '/' ∉ c.toList) : Open (further dir c) := by
  have hne : c.toList ≠ [] := fun h => hc (String.toList_inj.1 h)
  refine .inr ⟨fun h => ?_, fun h => ?_⟩
  · simpa [further, hc] using congrArg String.toList h
  · rw [further, String.toList_append, List.getLast?_append_of_ne_nil _ hne, List.getLast?_eq_some_getLast hne] at h
    exact hs (Option.some.inj h ▸ List.getLast_mem hne)

/-- One more component leads one step on. -/
lemma place_further (hdir : Open dir) (hs : '/' ∉ c.toList) :
    t.place (further dir c) = (t.place dir).bind (t.follow · [c]) := by
  have hc : Path.components c = [c] := Path.components_of_slashless hs
  rcases hdir with rfl | ⟨hne, hlast⟩
  · have hroot : further "/" c = "/" ++ c := by rw [further, if_pos (beq_self_eq_true _), String.append_empty]
    rw [hroot, Tree.place, if_neg (by simp), Path.components_root, hc]
    rfl
  · have hslash : dir ≠ "/" := by
      rintro rfl
      exact hlast rfl
    rw [further, if_neg (by simpa using hslash), Tree.place, Tree.place, if_neg (by simp), if_neg (by simpa using hne),
      Path.components_slash, hc, Tree.follow_append]

lemma join_eq_further (hdir : Open dir) (hs : '/' ∉ n.toList) : Path.join dir n = further dir n := by
  rw [Path.join, if_neg (by simp [Path.isAbsolute_of_slashless hs]), further]
  rcases hdir with rfl | ⟨hne, hlast⟩
  · rw [if_pos (by decide), if_pos (beq_self_eq_true _), String.append_empty]
  · have hslash : dir ≠ "/" := by
      rintro rfl
      exact hlast rfl
    rw [if_neg (by simp [hne, hlast]), if_neg (by simpa using hslash)]

lemma slashless (hn : n ∈ t.namesAt p) : n ≠ "" ∧ '/' ∉ n.toList := by
  obtain ⟨⟨h1, -⟩, hs, -⟩ := Tree.proper_of_isName (Tree.isName_of_namesAt hn)
  exact ⟨h1, hs⟩

/-- The names of the entries of the directory that a path leads to. -/
def namesOf (t : Tree) (dir : String) : List String :=
  match t.stat dir with
  | .ok (p, .directory) => t.namesAt p
  | _ => []

lemma mem_namesOf : n ∈ namesOf t dir ↔ ∃ p, t.place dir = .ok p ∧ n ∈ t.namesAt p := by
  unfold namesOf
  constructor
  · intro h
    split at h
    · rename_i p hp
      exact ⟨p, (Tree.stat_eq.1 hp).1, h⟩
    · exact absurd h List.not_mem_nil
  · rintro ⟨p, hp, hn⟩
    rw [Tree.stat_eq.2 ⟨hp, Tree.get?_of_namesAt hn⟩]
    exact hn

lemma anyMatch_pattern (hc : Wildcard.isPattern c.toList = true) : anyMatch t dir (c :: cs) = true ↔
    ∃ n ∈ namesOf t dir, Wildcard.fitsName c.toList n.toList = true ∧ (cs = [] ∨ t.isDirectory (Path.join dir n) = true) ∧
      anyMatch t (Path.join dir n) cs = true := by
  rw [anyMatch, if_pos hc]
  change ((namesOf t dir).filter _).any _ = true ↔ _
  simp only [List.any_eq_true, List.mem_filter, Bool.and_eq_true, Bool.or_eq_true, List.isEmpty_iff, and_assoc]

lemma open_join (hdir : Open dir) (hn : n ∈ t.namesAt p) : Open (Path.join dir n) := by
  obtain ⟨hn0, hs⟩ := slashless hn
  rw [join_eq_further hdir hs]
  exact open_further hn0 hs

lemma place_entry (hp : t.place dir = .ok p) (hn : n ∈ t.namesAt p) : t.place (Path.join dir n) = .ok (p ++ [n]) :=
  Tree.place_child (Tree.stat_eq.2 ⟨hp, Tree.get?_of_namesAt hn⟩) (Tree.isName_of_namesAt hn)

/-- A pattern is found below a directory when it fits a name at one of the places to which the components lead. -/
lemma anyMatch_iff (hdir : Open dir) (hcs : ∀ c ∈ cs, c ≠ "" ∧ '/' ∉ c.toList)
    (hsign : Wildcard.isPattern sign.toList = true) : anyMatch t dir (cs ++ [sign]) = true ↔
      ∃ p q, t.place dir = .ok p ∧ Globs t p cs q ∧ ∃ n ∈ t.namesAt q, Wildcard.fitsName sign.toList n.toList = true := by
  induction cs generalizing dir with
  | nil =>
    rw [List.nil_append, anyMatch_pattern hsign]
    constructor
    · rintro ⟨n, hmem, hfits, -⟩
      obtain ⟨p, hp, hn⟩ := mem_namesOf.1 hmem
      exact ⟨p, p, hp, .here, n, hn, hfits⟩
    · rintro ⟨p, q, hp, hglobs, n, hn, hfits⟩
      cases hglobs
      exact ⟨n, mem_namesOf.2 ⟨p, hp, hn⟩, hfits, .inl rfl, by rw [anyMatch]⟩
  | cons c cs ih =>
    obtain ⟨⟨hne, hs⟩, hrest⟩ := List.forall_mem_cons.1 hcs
    rw [List.cons_append]
    by_cases hc : Wildcard.isPattern c.toList = true
    · rw [anyMatch_pattern hc]
      constructor
      · rintro ⟨n, hmem, hfits, -, hany⟩
        obtain ⟨p, hp, hn⟩ := mem_namesOf.1 hmem
        obtain ⟨p', q, hp', hglobs, hfound⟩ := (ih (open_join hdir hn) hrest).1 hany
        obtain rfl := Except.ok.inj ((place_entry hp hn).symm.trans hp')
        exact ⟨p, q, hp, .pattern hc hn hfits hglobs, hfound⟩
      · rintro ⟨p, q, hp, hglobs, k, hk, hfound⟩
        cases hglobs with
        | plain hplain => exact absurd (hplain.symm.trans hc) Bool.false_ne_true
        | pattern _ hn hfits hglobs =>
          have hplace := place_entry hp hn
          have hthere := Tree.stat_eq.2 ⟨hplace, hglobs.directory (Tree.get?_of_namesAt hk)⟩
          exact ⟨_, mem_namesOf.2 ⟨p, hp, hn⟩, hfits, .inr (Tree.isDirectory_iff.2 ⟨_, hthere⟩),
            (ih (open_join hdir hn) hrest).2 ⟨_, q, hplace, hglobs, k, hk, hfound⟩⟩
    · rw [anyMatch, if_neg hc]
      change anyMatch t (further dir c) (cs ++ [sign]) = true ↔ _
      rw [ih (open_further hne hs) hrest]
      constructor
      · rintro ⟨p', q, hp', hglobs, hfound⟩
        rw [place_further hdir hs] at hp'
        rcases hp : t.place dir with f | p
        · rw [hp] at hp'
          exact absurd hp' nofun
        · rw [hp] at hp'
          exact ⟨p, q, rfl, .plain (Bool.eq_false_of_not_eq_true hc) hp' hglobs, hfound⟩
      · rintro ⟨p, q, hp, hglobs, hfound⟩
        cases hglobs with
        | plain _ hfollow hglobs =>
          refine ⟨_, q, ?_, hglobs, hfound⟩
          rw [place_further hdir hs, hp]
          exact hfollow
        | pattern hpattern => exact absurd hpattern hc

/-! ### Signs -/

/-- The names on a path. -/
def namesOn (root : String) : List String := (Path.components root).filter (· != "")

/-- A sign that is a pattern is shown when it fits a name at one of the places to which the path leads as a pattern. -/
lemma hasSign_pattern (hroot : root ≠ "") (hsign : Wildcard.isPattern sign.toList = true) (hne : sign ≠ "")
    (hs : '/' ∉ sign.toList) : hasSign t root sign = true ↔
      ∃ q, Globs t [] (namesOn root) q ∧ ∃ n ∈ t.namesAt q, Wildcard.fitsName sign.toList n.toList = true := by
  have hcomponents : (Path.components (Path.join root sign)).filter (· != "") = namesOn root ++ [sign] := by
    obtain ⟨cs, hjoin, hcs⟩ := Path.components_join hroot (Path.isAbsolute_of_slashless hs)
    rw [hjoin, List.filter_append, Path.components_of_slashless hs, List.filter_cons_of_pos (by simpa using hne), List.filter_nil,
      namesOn]
    rcases hcs with h | h <;> simp [h]
  have hnames : ∀ c ∈ namesOn root, c ≠ "" ∧ '/' ∉ c.toList := fun c hc =>
    ⟨by simpa using (List.mem_filter.1 hc).2, (Path.of_mem_components (List.mem_filter.1 hc).1).1⟩
  rw [hasSign, if_pos hsign, hcomponents, anyMatch_iff (.inl rfl) hnames hsign]
  constructor
  · rintro ⟨p, q, hp, hfound⟩
    obtain rfl : [] = p := Except.ok.inj hp
    exact ⟨q, hfound⟩
  · rintro ⟨q, hfound⟩
    exact ⟨[], q, rfl, hfound⟩

/-- A sign that is no pattern is shown when a file of the name stands in the directory. -/
lemma hasSign_plain (hroot : t.stat root = .ok (p, .directory)) (hsign : Wildcard.isPattern sign.toList = false)
    (hname : isName sign = true) : hasSign t root sign = t.hasFile (p ++ [sign]) := by
  have hplace := Tree.place_child hroot hname
  rw [hasSign, if_neg (Bool.eq_false_iff.1 hsign), Bool.eq_iff_iff, Tree.isFile_iff, Tree.hasFile_iff]
  constructor
  · rintro ⟨q, b, hq⟩
    obtain ⟨hq, hb⟩ := Tree.stat_eq.1 hq
    obtain rfl := Except.ok.inj (hplace.symm.trans hq)
    exact ⟨b, hb⟩
  · rintro ⟨b, hb⟩
    exact ⟨_, b, Tree.stat_eq.2 ⟨hplace, hb⟩⟩

/-! ### Detection -/

/-- Whether a project shows that it is a solution, with its path read as a pattern. -/
def showsSolution (t : Tree) (root : String) : Bool := ["*.sln", "*.csproj", "*.fsproj"].any (hasSign t root)

/-- A name is that of a solution when it fits one of the patterns. -/
lemma isSolution_iff : isSolution n = true ↔
    ∃ s ∈ ["*.sln", "*.csproj", "*.fsproj"], Wildcard.fitsName s.toList n.toList = true := by
  have hstar : ∀ e ∈ solutionEnds, Wildcard.fitsName ('*' :: e.toList) n.toList = true ↔
      n.toList.head? ≠ some '.' ∧ e.toList <:+ n.toList := by
    intro e he
    refine Wildcard.fitsName_star ?_
    revert e
    decide
  have hpatterns : ["*.sln", "*.csproj", "*.fsproj"] = solutionEnds.map fun e => String.ofList ('*' :: e.toList) := by
    decide
  rw [isSolution, Bool.and_eq_true, bne_iff_ne, List.any_eq_true, hpatterns]
  simp only [List.mem_map, exists_exists_and_eq_and, String.toList_ofList, List.isSuffixOf_iff_suffix]
  constructor
  · rintro ⟨hshown, e, he, hend⟩
    exact ⟨e, he, (hstar e he).2 ⟨hshown, hend⟩⟩
  · rintro ⟨e, he, hfits⟩
    obtain ⟨hshown, hend⟩ := (hstar e he).1 hfits
    exact ⟨hshown, e, he, hend⟩

lemma showsSolution_iff (hroot : root ≠ "") : showsSolution t root = true ↔
    ∃ q, Globs t [] (namesOn root) q ∧ (t.namesAt q).any isSolution = true := by
  have hsigns : ∀ s ∈ ["*.sln", "*.csproj", "*.fsproj"], Wildcard.isPattern s.toList = true ∧ s ≠ "" ∧ '/' ∉ s.toList := by
    decide
  simp only [showsSolution, List.any_eq_true (l := t.namesAt _), isSolution_iff]
  rw [List.any_eq_true]
  constructor
  · rintro ⟨s, hs, hshown⟩
    obtain ⟨hpattern, hne, hslash⟩ := hsigns s hs
    obtain ⟨q, hglobs, n, hn, hfits⟩ := (hasSign_pattern hroot hpattern hne hslash).1 hshown
    exact ⟨q, hglobs, n, hn, s, hs, hfits⟩
  · rintro ⟨q, hglobs, n, hn, s, hs, hfits⟩
    obtain ⟨hpattern, hne, hslash⟩ := hsigns s hs
    exact ⟨s, hs, (hasSign_pattern hroot hpattern hne hslash).2 ⟨q, hglobs, n, hn, hfits⟩⟩

/-- The kind of a project is told by the files of its directory and by the solutions that its path finds. -/
lemma detect_eq (hroot : t.stat root = .ok (p, .directory)) : detect t root =
    if t.hasFile (p ++ ["tsconfig.json"]) then some .typescript
    else if showsSolution t root then some .dotnet
    else if t.hasFile (p ++ ["package.json"]) then some .typescript
    else none := by
  have htsconfig : hasSign t root "tsconfig.json" = t.hasFile (p ++ ["tsconfig.json"]) :=
    hasSign_plain hroot (by decide) (by decide)
  have hpackage : hasSign t root "package.json" = t.hasFile (p ++ ["package.json"]) :=
    hasSign_plain hroot (by decide) (by decide)
  rw [detect, if_pos (Tree.isDirectory_iff.2 ⟨p, hroot⟩), ← htsconfig, ← hpackage, showsSolution]
  simp only [signs, List.find?_cons, List.find?_nil, List.any_cons, List.any_nil, Bool.or_false]
  cases hasSign t root "tsconfig.json" <;> cases hasSign t root "*.sln" <;> cases hasSign t root "*.csproj" <;>
    cases hasSign t root "*.fsproj" <;> cases hasSign t root "package.json" <;> rfl

/-! ### Directories whose paths are no patterns -/

/-- Components that are no patterns lead where they always lead. -/
lemma globs_iff_follow (hcs : ∀ c ∈ cs, Wildcard.isPattern c.toList = false) :
    Globs t p cs q ↔ t.follow p cs = .ok q := by
  induction cs generalizing p with
  | nil =>
    constructor
    · rintro ⟨⟩
      rfl
    · intro h
      obtain rfl : p = q := Except.ok.inj h
      exact .here
  | cons c cs ih =>
    obtain ⟨hc, hcs⟩ := List.forall_mem_cons.1 hcs
    rw [← List.singleton_append, Tree.follow_append]
    constructor
    · intro h
      cases h with
      | plain _ hfollow hrest =>
        rw [hfollow]
        exact (ih hcs).1 hrest
      | pattern hpattern => exact absurd (hc.symm.trans hpattern) Bool.false_ne_true
    · intro h
      rcases hstep : t.follow p [c] with f | r
      · rw [hstep] at h
        exact absurd h nofun
      · rw [hstep] at h
        exact .plain hc hstep ((ih hcs).2 h)

/-- Empty components lead nowhere. -/
lemma follow_nonempty (h : t.follow p cs = .ok q) : t.follow p (cs.filter (· != "")) = .ok q := by
  induction cs generalizing p with
  | nil => exact h
  | cons c cs ih =>
    obtain ⟨hdir, ⟨rfl | rfl, hrest⟩ | ⟨rfl, hrest⟩ | ⟨⟨hne, hdot, hup⟩, hsize, hrest⟩⟩ := Tree.follow_cons_cases h
    · exact ih hrest
    · rw [List.filter_cons_of_pos (by decide), Tree.follow_cons, hdir]
      exact ih hrest
    · rw [List.filter_cons_of_pos (by decide), Tree.follow_cons, hdir]
      exact ih hrest
    · rw [List.filter_cons_of_pos (by simpa using hne), Tree.follow_cons, hdir]
      dsimp only
      rw [if_neg (by simp [hne, hdot]), if_neg (by simpa using hup), if_neg (Nat.not_lt.2 hsize)]
      exact ih hrest

/-- A path that is no pattern leads to its directory alone. -/
lemma globs_plain (hroot : t.stat root = .ok (p, .directory)) (hplain : Wildcard.isPattern root.toList = false) :
    Globs t [] (namesOn root) q ↔ q = p := by
  have hnames : ∀ c ∈ namesOn root, Wildcard.isPattern c.toList = false := by
    intro c hc
    rw [Wildcard.isPattern, List.any_eq_false] at hplain ⊢
    exact fun x hx => hplain x ((Path.of_mem_components (List.mem_filter.1 hc).1).2 x hx)
  have hfollow : t.follow [] (namesOn root) = .ok p := follow_nonempty (Tree.place_eq (Tree.stat_eq.1 hroot).1).2
  rw [globs_iff_follow hnames, hfollow, Except.ok.injEq, eq_comm]

/-- The same names stand in two directories, and the same of them are files. -/
def Alike (t : Tree) (p : Place) (t' : Tree) (p' : Place) : Prop :=
  ∀ n, (n ∈ t'.namesAt p' ↔ n ∈ t.namesAt p) ∧ t'.hasFile (p' ++ [n]) = t.hasFile (p ++ [n])

lemma Alike.kindAt_eq {t' : Tree} {p' : Place} (h : Alike t p t' p') : kindAt t' p' = kindAt t p := by
  have hsolution : (t'.namesAt p').any isSolution = (t.namesAt p).any isSolution := by
    rw [Bool.eq_iff_iff, List.any_eq_true, List.any_eq_true]
    exact exists_congr fun n => and_congr_left' (h n).1
  rw [kindAt, kindAt, (h _).2, (h _).2, hsolution]

/-- **The kind of a project is told by its directory just when its path finds no solution elsewhere.** The kind is the
one that the entries of the directory tell, exactly when a configuration stands there, or the path, read as a pattern,
leads to a directory with a solution just when a solution stands in the project's own. With a path that is no pattern
this is always so; and the entries tell the same of every two directories that have the same. -/
theorem detect_iff (hroot : t.stat root = .ok (p, .directory)) :
    (detect t root = kindAt t p ↔ t.hasFile (p ++ ["tsconfig.json"]) = true ∨
      ((t.namesAt p).any isSolution = true ↔
        ∃ q, Globs t [] (namesOn root) q ∧ (t.namesAt q).any isSolution = true)) ∧
    (Wildcard.isPattern root.toList = false → detect t root = kindAt t p) ∧
    ∀ t' p', Alike t p t' p' → kindAt t' p' = kindAt t p := by
  have hfinds := showsSolution_iff (t := t) (Tree.place_eq (Tree.stat_eq.1 hroot).1).1
  have hiff : detect t root = kindAt t p ↔ t.hasFile (p ++ ["tsconfig.json"]) = true ∨
      ((t.namesAt p).any isSolution = true ↔ showsSolution t root = true) := by
    rw [detect_eq hroot, kindAt]
    cases t.hasFile (p ++ ["tsconfig.json"]) <;> cases showsSolution t root <;>
      cases (t.namesAt p).any isSolution <;> cases t.hasFile (p ++ ["package.json"]) <;> decide
  rw [hfinds] at hiff
  refine ⟨hiff, fun hplain => hiff.2 (.inr ?_), fun t' p' => Alike.kindAt_eq⟩
  simp only [globs_plain hroot hplain, exists_eq_left]

/-- Two directories with one solution each, one of them with a pattern for a name. -/
def bracketed : Tree :=
  ((((Tree.empty.put ["p[1]"] .directory).put ["q"] .directory).put ["p[1]", "a.sln"] (.file .empty)).put
    ["q", "a.sln"] (.file .empty))

lemma entries_bracketed : bracketed.entries = [(["q", "a.sln"], .file .empty), (["p[1]", "a.sln"], .file .empty),
    (["q"], .directory), (["p[1]"], .directory)] := by
  decide

lemma alike_bracketed : Alike bracketed ["q"] bracketed ["p[1]"] := by
  intro n
  rw [Bool.eq_iff_iff, Tree.hasFile_iff, Tree.hasFile_iff, Tree.mem_namesAt, Tree.mem_namesAt]
  simp [Tree.get?_eq_some, entries_bracketed]

lemma kindAt_bracketed : kindAt bracketed ["q"] = some .dotnet := by
  have hsolution : (bracketed.namesAt ["q"]).any isSolution = true := by
    refine List.any_eq_true.2 ⟨"a.sln", Tree.mem_namesAt.2 ⟨.file .empty, ?_⟩, by decide⟩
    simp [Tree.get?_eq_some, entries_bracketed]
  rw [kindAt, if_neg (by decide), if_pos hsolution]

/-- The name of a directory that is no pattern leads to what stands in it. -/
theorem detect_iff_named : bracketed.stat "/q" = .ok (["q"], .directory) ∧ Wildcard.isPattern "/q".toList = false ∧
    detect bracketed "/q" = some .dotnet ∧ kindAt bracketed ["p[1]"] = some .dotnet := by
  have hroot : bracketed.stat "/q" = .ok (["q"], .directory) := by decide
  have hplain : Wildcard.isPattern "/q".toList = false := by decide
  obtain ⟨-, hdetect, halike⟩ := detect_iff hroot
  exact ⟨hroot, hplain, (hdetect hplain).trans kindAt_bracketed, (halike _ _ alike_bracketed).trans kindAt_bracketed⟩

/-- The name of a directory does not fit itself when it is read as a pattern, so that the solution in it is not found. -/
theorem bracketed_missed : bracketed.stat "/p[1]" = .ok (["p[1]"], .directory) ∧
    kindAt bracketed ["p[1]"] = some .dotnet ∧ detect bracketed "/p[1]" = none := by
  have hroot : bracketed.stat "/p[1]" = .ok (["p[1]"], .directory) := by decide
  have hkind : kindAt bracketed ["p[1]"] = some .dotnet := alike_bracketed.kindAt_eq.trans kindAt_bracketed
  have hparts : Wildcard.parts "p[1]".toList = [.exact 'p', .oneOf false [('1', '1')]] := by decide
  have hunfit : ∀ n ∈ ["q", "p[1]"], Wildcard.fitsName "p[1]".toList n.toList = false := by
    intro n hn
    rw [Wildcard.fitsName, hparts]
    rcases List.mem_pair.1 hn with rfl | rfl <;> simp [Wildcard.fits, Wildcard.fitsOne]
  have hshows : ¬ showsSolution bracketed "/p[1]" = true := by
    rw [showsSolution_iff (by decide), show namesOn "/p[1]" = ["p[1]"] by decide]
    rintro ⟨q, hglobs, -⟩
    cases hglobs with
    | plain hplain => exact absurd hplain (by decide)
    | pattern _ hn hfits _ =>
      obtain ⟨e, he⟩ := Tree.mem_namesAt.1 hn
      obtain ⟨rfl, -⟩ | ⟨rfl, -⟩ : _ = "q" ∧ _ ∨ _ = "p[1]" ∧ _ := by
        simpa [Tree.get?_eq_some, entries_bracketed] using he
      · exact absurd hfits (Bool.eq_false_iff.1 (hunfit _ (by decide)))
      · exact absurd hfits (Bool.eq_false_iff.1 (hunfit _ (by decide)))
  refine ⟨hroot, hkind, ?_⟩
  rw [detect_eq hroot, if_neg hshows]
  decide

end ProjectKind

end Ratchet
