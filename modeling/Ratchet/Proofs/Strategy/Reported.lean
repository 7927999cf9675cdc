import Ratchet.Proofs.Grouping.Partition
import Ratchet.Proofs.Path.Within
import Ratchet.Proofs.Run.Sparing
import Ratchet.Proofs.Workspace

/-!
Which changes an answer tells.

The digests of the diagnostics' files are taken before and after a strategy, and the files whose digests differ are
added to those that the strategy names. No digest is taken of a path whose text does not lie below that of the tree's
root, although the place that it leads to may lie in the tree; so a change is told exactly when the strategy tells it
itself or the path is spelled as the root is. A foreign command tells what its own comparison of digests finds, and
nothing is added to that.
-/

namespace Ratchet

open Act

/-! ### Files of the tree -/

namespace Workspace

variable {here root path p : String}

/-- A root is the same when it is seen from the root of all files. -/
lemma resolve_join (path : String) (hh : Path.isAbsolute here = true) :
    resolve here root path = resolve here (Path.join here root) path := by
  have habs : Path.absolute here (Path.join here root) = Path.absolute here root := by
    rw [Path.absolute, Path.absolute, Path.join, if_pos (Path.isAbsolute_join root hh)]
  unfold resolve Path.within?
  rw [habs]

/-- A path belongs to a workspace when the place to which it leads does and it is spelled as the workspace is. -/
lemma resolve_cases (root path : String) (hh : Path.isAbsolute here = true) :
    (Path.base (Path.join here root) <+: Path.target (Path.join here root) path ∧
        Path.Spelled (Path.join here root) path ∧
        ∃ p, resolve here root path = .ok p ∧ Path.lexical p = Path.target (Path.join here root) path) ∨
      ¬ (Path.base (Path.join here root) <+: Path.target (Path.join here root) path ∧
          Path.Spelled (Path.join here root) path) ∧ ∃ f, resolve here root path = .error f := by
  have hroot := Path.isAbsolute_join root hh
  have hresolve := (resolve_join path hh).trans (resolve_absolute here path hroot)
  by_cases hbelow : Path.isBelow (Path.normal (Path.join here root)) (Path.resolved (Path.join here root) path) = true
  · obtain ⟨hplace, hspelled⟩ := (Path.isBelow_resolved_iff hroot).1 hbelow
    rw [if_pos hbelow] at hresolve
    refine .inl ⟨hplace, hspelled, _, hresolve, ?_⟩
    rw [(resolve_eq_ok hh hresolve).2.1, Path.target_eq hroot]
    rfl
  · rw [if_neg hbelow] at hresolve
    exact .inr ⟨fun h => hbelow ((Path.isBelow_resolved_iff hroot).2 h), _, hresolve⟩

end Workspace

namespace Assignment

variable {a : Assignment} {w w' : World} {root f : String} {fs : List String}

/-- Whether a file of the diagnostics lies in the tree and differs between two worlds: it is there in only one of them,
or with other bytes. -/
structure Changed (a : Assignment) (w w' : World) (f : String) : Prop where
  listed : f ∈ a.files
  inTree : Path.base (Path.join w.here a.root) <+: Path.target (Path.join w.here a.root) f
  differs : w.tree.bytes? (Path.target (Path.join w.here a.root) f) ≠
    w'.tree.bytes? (Path.target (Path.join w.here a.root) f)

/-- Whether digests tell apart what the diagnostics' files have in them in two worlds. -/
def Distinguished (a : Assignment) (w w' : World) : Prop :=
  ∀ f ∈ a.files, ∀ c c', w.tree.bytes? (Path.target (Path.join w.here a.root) f) = some c →
    w'.tree.bytes? (Path.target (Path.join w.here a.root) f) = some c' → Digest.sha256 c = Digest.sha256 c' → c = c'

/-! ### Comparing digests -/

/-- The digest that is taken of a file: none where it is not there, or does not belong to the tree. -/
def stamp (root : String) (w : World) (f : String) : Option String :=
  (Workspace.resolve w.here root f).toOption.bind fun p => (w.tree.bytes? (Path.lexical p)).map Digest.sha256

lemma stamp_ok {p : String} (h : Workspace.resolve w.here root f = .ok p) :
    stamp root w f = (w.tree.bytes? (Path.lexical p)).map Digest.sha256 := by
  rw [stamp, h]
  rfl

lemma stamp_error {c : Fault} (h : Workspace.resolve w.here root f = .error c) : stamp root w f = none := by
  rw [stamp, h]
  rfl

/-- What follows the digest of a file that belongs to the tree goes on with the file's stamp. -/
lemma runOn_digest {α : Type} {p : String} (k : Option String → Act α)
    (h : Workspace.resolve w.here root f = .ok p) :
    runOn w (do
      if ← isFile p then
        let d ← some <$> (Digest.sha256 <$> readBytes p)
        k d
      else
        let d ← pure none
        k d) = runOn w (k (stamp root w f)) := by
  obtain ⟨hclear, -, -⟩ := Workspace.resolve_eq_ok w.rooted h
  obtain ⟨hfile, hread⟩ := Workspace.read_resolved (t := w.tree) w.rooted h
  rw [runOn_bind_ok _ (runOn_isFile p), World.located_absolute hclear.absolute, stamp_ok h]
  rcases hc : w.tree.bytes? (Path.lexical p) with _ | c
  · rw [hc] at hfile
    rw [if_neg fun h => absurd (hfile.1 h) nofun, runOn_bind_ok _ (runOn_pure none)]
    rfl
  · have hbytes : runOn w (readBytes p) = (.ok c, w) := by
      rw [runOn_readBytes, World.located_absolute hclear.absolute, hread c hc]
    have hdigest : runOn w (some <$> (Digest.sha256 <$> readBytes p)) = (.ok (some (Digest.sha256 c)), w) := by
      rw [runOn_map, runOn_map, hbytes]
      rfl
    rw [hc] at hfile
    rw [if_pos (hfile.2 rfl), runOn_bind_ok _ hdigest]
    rfl

/-- What is found among the digests of files, by induction on the files. -/
lemma runOn_digests (root : String) (fs : List String) (w : World) :
    ∃ ds, runOn w (digests root fs) = (.ok ds, w) ∧
      ∀ f, (ds.lookup f).join = if f ∈ fs then stamp root w f else none := by
  induction fs with
  | nil => exact ⟨[], rfl, fun f => by simp⟩
  | cons g fs ih =>
    obtain ⟨ds, hds, hlookup⟩ := ih
    rcases hg : Workspace.resolve w.here root g with c | p
    · refine ⟨ds, ?_, fun f => ?_⟩
      · refine (runOn_bind_ok _ runOn_get).trans ?_
        dsimp only
        rw [hg]
        exact hds
      · rw [hlookup]
        by_cases hf : f = g
        · rw [hf, stamp_error hg, ite_self, ite_self]
        · simp [hf]
    · refine ⟨(g, stamp root w g) :: ds, ?_, fun f => ?_⟩
      · refine (runOn_bind_ok _ runOn_get).trans ?_
        dsimp only
        rw [hg]
        refine (runOn_digest (fun d => do return (g, d) :: (← digests root fs)) hg).trans ?_
        rw [runOn_bind_ok _ hds]
        rfl
      · by_cases hf : f = g
        · simp [hf]
        · rw [List.lookup_cons, beq_false_of_ne hf]
          simp [hf, hlookup]

/-- The files whose digests differ. -/
lemma changed_eq {before after : List (String × Option String)}
    (hbefore : ∀ f, (before.lookup f).join = if f ∈ fs then stamp root w f else none)
    (hafter : ∀ f, (after.lookup f).join = if f ∈ fs then stamp root w' f else none) :
    changed fs before after = fs.filter fun f => stamp root w f != stamp root w' f :=
  List.filter_congr fun f hf => by rw [hbefore, hafter, if_pos hf, if_pos hf]

/-- The digests that are taken of a file of the diagnostics differ when it has changed and is spelled as the root is. -/
lemma stamp_ne_iff (hroot : Path.join w'.here a.root = Path.join w.here a.root) (hd : a.Distinguished w w')
    (hf : f ∈ a.files) :
    stamp a.root w f ≠ stamp a.root w' f ↔ a.Changed w w' f ∧ Path.Spelled (Path.join w.here a.root) f := by
  have hother := Workspace.resolve_cases a.root f w'.rooted
  rw [hroot] at hother
  rcases Workspace.resolve_cases a.root f w.rooted with ⟨hplace, hspelled, p, hp, hl⟩ | ⟨hnot, c, hc⟩
  · obtain ⟨-, -, q, hq, hl'⟩ := hother.resolve_right fun h => h.1 ⟨hplace, hspelled⟩
    rw [stamp_ok hp, stamp_ok hq, hl, hl']
    have hsame : (w.tree.bytes? (Path.target (Path.join w.here a.root) f)).map Digest.sha256 =
        (w'.tree.bytes? (Path.target (Path.join w.here a.root) f)).map Digest.sha256 ↔
        w.tree.bytes? (Path.target (Path.join w.here a.root) f) =
          w'.tree.bytes? (Path.target (Path.join w.here a.root) f) := by
      refine ⟨fun h => ?_, fun h => by rw [h]⟩
      rcases hb : w.tree.bytes? (Path.target (Path.join w.here a.root) f) with _ | b <;>
        rcases hb' : w'.tree.bytes? (Path.target (Path.join w.here a.root) f) with _ | b' <;> rw [hb, hb'] at h
      · cases h
      · cases h
      · rw [hd f hf b b' hb hb' (Option.some.inj h)]
    rw [ne_eq, hsame]
    exact ⟨fun h => ⟨⟨hf, hplace, h⟩, hspelled⟩, fun h => h.1.differs⟩
  · obtain ⟨-, c', hc'⟩ := hother.resolve_left fun h => hnot ⟨h.1, h.2.1⟩
    rw [stamp_error hc, stamp_error hc']
    exact ⟨fun h => absurd rfl h, fun h => absurd ⟨h.1.inTree, h.2⟩ hnot⟩

/-- What an answer is to tell: what the strategy said itself, and after that the files that changed beside it. -/
structure Reported (a : Assignment) (w w' : World) (own e : Edits) : Prop where
  applied : e.applied = own.applied
  added : ∃ fs, e.files = own.files ++ fs ∧ fs.Sublist a.files ∧ ∀ f ∈ fs, f ∉ own.files ∧ a.Changed w w' f
  told : ∀ f, a.Changed w w' f → f ∈ e.files

/-- What the answer of a foreign command is to tell: the files that changed and how many they are. -/
structure Counted (a : Assignment) (w w' : World) (e : Edits) : Prop where
  inOrder : e.files.Sublist (a.diagnostics.map (·.file)).eraseDups
  told : ∀ f, f ∈ e.files ↔ a.Changed w w' f
  applied : e.applied = e.files.length

end Assignment

/-! ### Answers -/

variable {w w' : World} {a : Assignment} {own e : Edits} {f : String}

/-- The files of an assignment whose stamps differ between two worlds. -/
def Assignment.restamped (a : Assignment) (w w' : World) : List String :=
  a.files.filter fun f => stamp a.root w f != stamp a.root w' f

lemma Assignment.mem_restamped (hroot : Path.join w'.here a.root = Path.join w.here a.root)
    (hd : a.Distinguished w w') :
    f ∈ a.restamped w w' ↔ a.Changed w w' f ∧ Path.Spelled (Path.join w.here a.root) f := by
  rw [restamped, List.mem_filter, bne_iff_ne]
  refine ⟨fun ⟨hf, hne⟩ => (stamp_ne_iff hroot hd hf).1 hne, fun h => ⟨h.1.listed, ?_⟩⟩
  exact (stamp_ne_iff hroot hd h.1.listed).2 h

/-- A foreign command tells the files whose stamps differ. -/
lemma Fixer.of_strategy_ok {x : Fixer} (hdry : a.dryRun = false)
    (h : runOn w (x.strategy a) = (.ok (.edits own), w')) :
    own = ⟨a.restamped w w', (a.restamped w w').length⟩ := by
  unfold Fixer.strategy at h
  rw [hdry, if_neg Bool.false_ne_true] at h
  obtain ⟨before, u, hbefore, h⟩ := of_bind_ok h
  obtain ⟨ds, hds, hlookup⟩ := Assignment.runOn_digests a.root a.files w
  obtain ⟨hfound, rfl⟩ := Prod.mk.inj (hds.symm.trans hbefore)
  obtain rfl := Except.ok.inj hfound
  obtain ⟨ending, v, -, h⟩ := of_bind_ok h
  rcases ending with ⟨code, output, errors⟩ | _ | cause
  · dsimp only at h
    rw [runOn_ite] at h
    split at h
    · exact absurd (Prod.mk.inj h).1 nofun
    · obtain ⟨after, y, hafter, h⟩ := of_bind_ok h
      obtain ⟨ds', hds', hlookup'⟩ := Assignment.runOn_digests a.root a.files v
      obtain ⟨hfound, rfl⟩ := Prod.mk.inj (hds'.symm.trans hafter)
      obtain rfl := Except.ok.inj hfound
      obtain ⟨hown, rfl⟩ := Prod.mk.inj h
      rw [Assignment.changed_eq hlookup hlookup'] at hown
      exact (StrategyAnswer.edits.inj (Except.ok.inj hown)).symm
  · exact absurd (Prod.mk.inj h).1 nofun
  · exact absurd (Prod.mk.inj h).1 nofun

namespace Registry

variable {r : Registry}

/-- What a strategy that has not failed answered. -/
lemma of_run_ok {s : Strategy} (h : runOn w (Registry.run s a) = (.ok e, w')) :
    runOn w (s a) = (.ok (.edits e), w') := by
  unfold Registry.run at h
  rw [runOn_outcome_bind] at h
  rcases hr : runOn w (s a) with ⟨c | answer, u⟩
  · rw [hr] at h
    exact absurd (Prod.mk.inj h).1 nofun
  · rw [hr] at h
    rcases answer with e' | label
    · obtain ⟨he, rfl⟩ := Prod.mk.inj h
      rw [Except.ok.inj he]
    · exact absurd (Prod.mk.inj h).1 nofun

/-- What the strategy of a category answers by itself, and what a category without a strategy comes to. -/
def Answers (r : Registry) (a : Assignment) (own : Edits) (w w' : World) : Prop :=
  match r.get? a.category with
  | none => own = {} ∧ w' = w
  | some s => runOn (w.note (.strategy a.category (a.diagnostics.map (·.location)) a.dryRun)) (s.strategy a) =
      (.ok (.edits own), w')

/-- What is added to an answer: the files whose stamps differ and that it does not name. -/
lemma of_apply_ok (hdry : a.dryRun = false) (hr : runOn w (r.apply a) = (.ok e, w')) :
    ∃ own, r.Answers a own w w' ∧
      e = { own with files := own.files ++ (a.restamped w w').filter (!own.files.contains ·) } := by
  unfold Registry.apply at hr
  unfold Answers
  rcases hs : r.get? a.category with _ | s <;> rw [hs] at hr
  · obtain ⟨he, rfl⟩ := Prod.mk.inj hr
    refine ⟨{}, ⟨rfl, rfl⟩, ?_⟩
    simp [Assignment.restamped, ← Except.ok.inj he]
  · obtain ⟨⟨⟩, u, hnote, hr⟩ := of_bind_ok hr
    rw [runOn_note] at hnote
    obtain ⟨-, rfl⟩ := Prod.mk.inj hnote
    rw [if_neg (by rw [hdry]; exact Bool.false_ne_true)] at hr
    obtain ⟨before, u, hbefore, hr⟩ := of_bind_ok hr
    obtain ⟨ds, hds, hlookup⟩ := Assignment.runOn_digests a.root a.files
      (w.note (.strategy a.category (a.diagnostics.map (·.location)) a.dryRun))
    obtain ⟨hfound, rfl⟩ := Prod.mk.inj (hds.symm.trans hbefore)
    obtain rfl := Except.ok.inj hfound
    obtain ⟨own, v, hown, hr⟩ := of_bind_ok hr
    obtain ⟨after, y, hafter, hr⟩ := of_bind_ok hr
    obtain ⟨ds', hds', hlookup'⟩ := Assignment.runOn_digests a.root a.files v
    obtain ⟨hfound, rfl⟩ := Prod.mk.inj (hds'.symm.trans hafter)
    obtain rfl := Except.ok.inj hfound
    obtain ⟨he, rfl⟩ := Prod.mk.inj hr
    refine ⟨own, of_run_ok hown, ?_⟩
    rw [← Except.ok.inj he, Assignment.changed_eq hlookup hlookup']
    rfl

/-- **A changed file is told unless the strategy is silent about it and it is spelled otherwise than the tree's root.**
An answer has the strategy's own entries first, then files of the diagnostics that changed and that it does not name,
and no others; and it has every one of the tree's files that changed, just when each that the strategy does not name
starts with the slashes that the root starts with (and the root is not that of all files). What a foreign command
answers are the files that changed, each once and in the order in which they come first, just when each is spelled so. -/
theorem told_iff (hdry : a.dryRun = false) (hr : runOn w (r.apply a) = (.ok e, w'))
    (hroot : Path.isAbsolute a.root = true ∨ w'.here = w.here) (hdigest : a.Distinguished w w') :
    ∃ own, r.Answers a own w w' ∧
      (a.Reported w w' own e ↔
        ∀ f, a.Changed w w' f → f ∉ own.files → Path.Spelled (Path.join w.here a.root) f) ∧
      ∀ x : Fixer, (r.get? a.category).map (·.strategy) = some x.strategy →
        (a.Counted w w' e ↔ ∀ f, a.Changed w w' f → Path.Spelled (Path.join w.here a.root) f) := by
  have hjoin : Path.join w'.here a.root = Path.join w.here a.root := by
    rcases hroot with habs | hhere
    · rw [Path.join, Path.join, if_pos habs, if_pos habs]
    · rw [hhere]
  have hmem : ∀ {f}, f ∈ a.restamped w w' ↔ a.Changed w w' f ∧ Path.Spelled (Path.join w.here a.root) f :=
    Assignment.mem_restamped hjoin hdigest
  obtain ⟨own, hown, he⟩ := of_apply_ok hdry hr
  refine ⟨own, hown, ⟨fun h f hf hnot => ?_, fun h => ⟨by rw [he], ?_, fun f hf => ?_⟩⟩, fun x hx => ?_⟩
  · have hadded := h.told f hf
    rw [he] at hadded
    exact (hmem.1 (List.mem_filter.1 ((List.mem_append.1 hadded).resolve_left hnot)).1).2
  · refine ⟨(a.restamped w w').filter (!own.files.contains ·), by rw [he],
      List.filter_sublist.trans List.filter_sublist, fun f hf => ?_⟩
    obtain ⟨hf, hnot⟩ := List.mem_filter.1 hf
    exact ⟨by simpa using hnot, (hmem.1 hf).1⟩
  · rw [he]
    by_cases hnamed : f ∈ own.files
    · exact List.mem_append_left _ hnamed
    · exact List.mem_append_right _ (List.mem_filter.2 ⟨hmem.2 ⟨hf, h f hf hnamed⟩, by simpa using hnamed⟩)
  · -- The command has compared the same digests, so there is nothing that it does not name.
    obtain ⟨s, hs, hsx⟩ := Option.map_eq_some_iff.1 hx
    have hcommand : own = ⟨a.restamped w w', (a.restamped w w').length⟩ := by
      unfold Answers at hown
      rw [hs] at hown
      dsimp only at hown
      rw [hsx] at hown
      exact (Fixer.of_strategy_ok hdry hown :)
    have hall : e = ⟨a.restamped w w', (a.restamped w w').length⟩ := by
      have hnone : (a.restamped w w').filter (!(a.restamped w w').contains ·) = [] :=
        List.filter_eq_nil_iff.2 fun f hf => by simp [hf]
      rw [he, hcommand, hnone, List.append_nil]
    rw [hall]
    refine ⟨fun h f hf => (hmem.1 ((h.told f).2 hf)).2, fun h => ⟨?_, fun f => ?_, rfl⟩⟩
    · rw [← Diagnostic.files_eq]
      exact List.filter_sublist
    · exact hmem.trans ⟨fun hf => hf.1, fun hf => ⟨hf, h f hf⟩⟩

end Registry

/-! ### A silent strategy -/

/-- A tree with one file. -/
def lone : World where
  tree := (Tree.empty.put ["w"] .directory).put ["w", "a"] (.file ⟨#[120]⟩)

/-- Strategies that rewrite the file without saying so. -/
def silent : Registry where
  entries := [("import-issues", ⟨.custom, fun _ => do
    writeBytes "/w/a" ⟨#[121]⟩
    return .edits {}⟩)]

/-- An assignment with a diagnostic of one file. -/
def oneFile (file : String) : Assignment where
  category := "import-issues"
  diagnostics := [{ file := file, line := 1, column := 1, code := "TS6133", message := "", severity := .low }]
  root := "/w"

/-- What comes of the file, and what is said of it. -/
lemma silent_steps (file : String) (fs : List String)
    (h : (runOn lone (do
      let e ← silent.apply (oneFile file)
      let w ← get
      return (e, w.tree.bytes? ["w", "a"]))).1.toOption = some (⟨fs, 0⟩, some ⟨#[121]⟩)) :
    ∃ w', runOn lone (silent.apply (oneFile file)) = (.ok ⟨fs, 0⟩, w') ∧
      lone.tree.bytes? ["w", "a"] = some ⟨#[120]⟩ ∧ w'.tree.bytes? ["w", "a"] = some ⟨#[121]⟩ := by
  obtain ⟨w', h⟩ := of_toOption h
  obtain ⟨e, u, he, h⟩ := of_bind_ok h
  rw [runOn_bind, runOn_get] at h
  obtain ⟨hresult, rfl⟩ := Prod.mk.inj h
  obtain ⟨rfl, hbytes⟩ := Prod.mk.inj (Except.ok.inj hresult)
  exact ⟨u, he, by decide, hbytes⟩

/-- The silently rewritten file is told. -/
theorem told_iff_silent : ∃ w' own, runOn lone (silent.apply (oneFile "a")) = (.ok ⟨["a"], 0⟩, w') ∧
    Path.isAbsolute (oneFile "a").root = true ∧ (oneFile "a").Distinguished lone w' ∧
    silent.Answers (oneFile "a") own lone w' ∧ (oneFile "a").Reported lone w' own ⟨["a"], 0⟩ := by
  obtain ⟨w', hr, hold, hnew⟩ := silent_steps "a" ["a"] (by decide +kernel)
  have htarget : Path.target (Path.join lone.here (oneFile "a").root) "a" = ["w", "a"] := by decide
  have hlisted : (oneFile "a").files = ["a"] := by decide
  have hdigest : (oneFile "a").Distinguished lone w' := by
    intro f hf c c' hc hc' hsame
    rw [hlisted, List.mem_singleton] at hf
    rw [hf, htarget] at hc hc'
    obtain rfl := Option.some.inj (hold.symm.trans hc)
    obtain rfl := Option.some.inj (hnew.symm.trans hc')
    exact absurd hsame (by decide +kernel)
  obtain ⟨own, hown, htold, -⟩ := Registry.told_iff rfl hr (.inl (by decide)) hdigest
  refine ⟨w', own, hr, by decide, hdigest, hown, htold.2 fun f hf _ => ?_⟩
  have hlist := hf.listed
  rw [hlisted, List.mem_singleton] at hlist
  rw [hlist]
  exact .inl ⟨by decide, by decide⟩

/-- The silently rewritten file is not told when it starts with two slashes and the tree's root with one. -/
theorem silent_untold : ∃ w', runOn lone (silent.apply (oneFile "//w/a")) = (.ok {}, w') ∧
    (oneFile "//w/a").Changed lone w' "//w/a" := by
  obtain ⟨w', hr, hold, hnew⟩ := silent_steps "//w/a" [] (by decide)
  have htarget : Path.target (Path.join lone.here (oneFile "//w/a").root) "//w/a" = ["w", "a"] := by decide
  refine ⟨w', hr, by decide, by rw [htarget]; decide, ?_⟩
  rw [htarget, hold, hnew]
  decide

end Ratchet
