import Ratchet.Proofs.Strategy.Reported

/-!
Which strategy a category has.

The strategies of a run are the built-in ones and, over them, those that the settings configure. A configured command
is run as its entry says, under its own category. Its limit is that of its entry; where the entry says none, it is that
of the defaults, although the settings have one of their own. `overlaid_iff` says when the settings are obeyed.
-/

namespace Ratchet

open Act

/-- What is configured for a category; of several entries the last one counts. -/
def Settings.transform? (s : Settings) (category : String) : Option TransformSpec :=
  s.transforms.reverse.lookup category

/-! ### Running a command -/

/-- Whether a strategy is the run of a command: unless it only plans, it starts this process in the tree's root and no
other, whatever it is handed. -/
def Strategy.Runs (s : Strategy) (argv : List String) (category : String) (limit : Datum) : Prop :=
  ∀ a w, (runOn w (s a)).2.journal =
    if a.dryRun then w.journal
    else w.journal.push (.process argv a.root (some limit)
      [("REMEDIATOR_CATEGORY", category), ("REMEDIATOR_FILES", "\n".intercalate a.files)])

/-- A strategy is the run of one command only. -/
lemma Strategy.Runs.unique {s : Strategy} {argv argv' : List String} {category category' : String} {limit limit' : Datum}
    (h : s.Runs argv category limit) (h' : s.Runs argv' category' limit') :
    argv = argv' ∧ category = category' ∧ limit = limit' := by
  have hsame := (h ⟨"", [], "", false⟩ {}).symm.trans (h' ⟨"", [], "", false⟩ {})
  rw [if_neg Bool.false_ne_true, if_neg Bool.false_ne_true, Array.push_inj_right] at hsame
  injection hsame with hargv _ hlimit hextras
  obtain ⟨hcategory, -⟩ := List.cons.inj hextras
  exact ⟨hargv, (Prod.mk.inj hcategory).2, Option.some.inj hlimit⟩

lemma journal_process (argv : List String) (dir : String) (limit : Option Datum) (extras : List (String × String))
    (w : World) : ∃ e w', runOn w (Act.process argv dir limit extras) = (.ok e, w') ∧
      w'.journal = w.journal.push (.process argv dir limit extras) := ⟨_, _, rfl, rfl⟩

/-- A foreign command runs its words, under its category and with its limit, however the process ends. -/
lemma Fixer.runs (f : Fixer) : f.strategy.Runs f.argv f.category f.limit := by
  intro a w
  unfold strategy
  rw [runOn_ite]
  split
  · rfl
  · obtain ⟨before, hbefore, -⟩ := Assignment.runOn_digests a.root a.files w
    rw [runOn_bind_ok _ hbefore]
    obtain ⟨ending, v, hprocess, hjournal⟩ := journal_process f.argv a.root (some f.limit)
      [("REMEDIATOR_CATEGORY", f.category), ("REMEDIATOR_FILES", "\n".intercalate a.files)] w
    refine Eq.trans ?_ hjournal
    dsimp only
    rw [runOn_bind_ok _ hprocess]
    rcases ending with ⟨code, output, errors⟩ | _ | cause
    · dsimp only
      rw [runOn_ite]
      split
      · rfl
      · obtain ⟨after, hafter, -⟩ := Assignment.runOn_digests a.root a.files v
        rw [runOn_bind_ok _ hafter]
        rfl
    · rfl
    · rfl

namespace Registry

variable {r : Registry} {limit : Int} {c : String} {x : Registered} {specs : List (String × TransformSpec)}

/-! ### Registering -/

lemma lookup_put (c : String) (x : Registered) (es : List (String × Registered)) (k : String) :
    (put c x es).lookup k = if k = c then some x else es.lookup k := by
  induction es with
  | nil =>
    rw [put, List.lookup_cons]
    by_cases hk : k = c
    · rw [hk, beq_self_eq_true, if_pos rfl]
    · rw [beq_false_of_ne hk, if_neg hk]
  | cons e es ih =>
    obtain ⟨d, y⟩ := e
    rw [put]
    by_cases hd : d = c
    · rw [if_pos (beq_iff_eq.2 hd), hd, List.lookup_cons, List.lookup_cons]
      by_cases hk : k = c
      · rw [hk, beq_self_eq_true, if_pos rfl]
      · rw [beq_false_of_ne hk, if_neg hk]
    · rw [if_neg (by simpa using hd), List.lookup_cons, List.lookup_cons, ih]
      by_cases hk : k = c
      · rw [hk, if_pos rfl, if_pos rfl, beq_false_of_ne (Ne.symm hd)]
      · rw [if_neg hk, if_neg hk]

lemma get?_register (k : String) : (r.register c x).get? k = if k = c then some x else r.get? k := lookup_put c x _ k

/-- When every entry can be loaded, each category has what its last entry loads, and the others have what they had. -/
lemma withAll_ok (h : ∀ e ∈ specs, ∃ x, load limit e.1 e.2 = .ok x) : ∃ r', withAll limit r specs = .ok r' ∧
    ∀ k, match specs.reverse.lookup k with
      | some spec => ∃ x, load limit k spec = .ok x ∧ r'.get? k = some x
      | none => r'.get? k = r.get? k := by
  induction specs generalizing r with
  | nil => exact ⟨r, rfl, fun k => rfl⟩
  | cons e specs ih =>
    obtain ⟨c, spec⟩ := e
    obtain ⟨x, hx⟩ := h _ List.mem_cons_self
    obtain ⟨r', hr', hget⟩ := ih (r := r.register c x) fun e he => h e (List.mem_cons_of_mem _ he)
    refine ⟨r', ?_, fun k => ?_⟩
    · rw [withAll, hx]
      exact hr'
    · have hk := hget k
      rw [List.reverse_cons, List.lookup_append]
      rcases hl : specs.reverse.lookup k with _ | spec'
      · rw [hl] at hk
        dsimp only at hk
        rw [get?_register] at hk
        by_cases hkc : k = c
        · rw [if_pos hkc] at hk
          rw [Option.none_or, hkc, List.lookup_cons_self]
          exact ⟨x, hx, hkc ▸ hk⟩
        · rw [if_neg hkc] at hk
          rw [Option.none_or, List.lookup_cons, beq_false_of_ne hkc]
          exact hk
      · rw [hl] at hk
        exact hk

/-! ### Loading -/

/-- What stands before and after the first occurrence of a character. -/
lemma of_cutFirst? {c : Char} {s a b : List Char} (h : Text.cutFirst? [c] s = some (a, b)) :
    s = a ++ c :: b ∧ c ∉ a := by
  induction s generalizing a with
  | nil => exact absurd h nofun
  | cons d s ih =>
    rw [Text.cutFirst?] at h
    by_cases hd : c = d
    · rw [if_pos (by simp [hd])] at h
      obtain ⟨rfl, rfl⟩ := Prod.mk.inj (Option.some.inj h)
      exact ⟨by simp [hd], List.not_mem_nil⟩
    · rw [if_neg (by simpa using hd)] at h
      obtain ⟨⟨a', b'⟩, hcut, hab⟩ := Option.map_eq_some_iff.1 h
      obtain ⟨rfl, rfl⟩ := Prod.mk.inj hab
      obtain ⟨rfl, hc⟩ := ih hcut
      exact ⟨rfl, List.not_mem_cons_of_ne_of_not_mem hd hc⟩

/-- What a category's strategy is to be by its entry: the callable that is named, or the run of the command that is
given, with `limit` where the entry has none of its own. -/
inductive Configured (limit : Int) (category : String) : TransformSpec → Registered → Prop
  | reference {r : Reference} (hmodule : r.module ≠ "" ∧ ':' ∉ r.module.toList) (hname : r.name ≠ "") :
      Configured limit category (.reference (r.module ++ ":" ++ r.name)) ⟨.reference r, r.strategy⟩
  | command {fields : List (String × Datum)} {d : Datum} {argv : List String} {x : Registered}
      (hcommand : fields.lookup "command" = some d) (hargv : Command.argvOfDatum d = .ok argv)
      (hruns : x.strategy.Runs argv category ((fields.lookup "timeout").getD (.int limit))) :
      Configured limit category (.command fields) x

lemma of_ofText? {s : String} {r : Reference} (h : Reference.ofText? s = some r) :
    s = r.module ++ ":" ++ r.name ∧ (r.module ≠ "" ∧ ':' ∉ r.module.toList) ∧ r.name ≠ "" := by
  unfold Reference.ofText? at h
  rcases hcut : Text.cutFirst? [':'] s.toList with _ | ⟨m, n⟩
  · rw [hcut] at h
    exact absurd h nofun
  · rw [hcut] at h
    dsimp only at h
    split at h
    · exact absurd h nofun
    · rename_i hne
      obtain rfl := Option.some.inj h
      obtain ⟨hs, hcolon⟩ := of_cutFirst? hcut
      simp only [Bool.or_eq_true, List.isEmpty_iff, not_or] at hne
      refine ⟨String.toList_inj.1 (by simp [hs]), ⟨?_, by rwa [String.toList_ofList]⟩, ?_⟩
      · exact fun h0 => hne.1 (by simpa using h0)
      · exact fun h0 => hne.2 (by simpa using h0)

/-- A reference that can be loaded is the one that its text spells. -/
lemma of_reference_load {text : String} {r : Reference} (h : Reference.load c text = .ok r) :
    Reference.ofText? text = some r := by
  unfold Reference.load at h
  rcases hr : Reference.ofText? text with _ | r'
  · rw [hr] at h
    exact absurd h nofun
  · rw [hr] at h
    dsimp only at h
    split at h
    · exact absurd h nofun
    · split at h
      · exact absurd h nofun
      · exact absurd h nofun
      · split at h
        · rw [Except.ok.inj h]
        · split at h <;> exact absurd h nofun

/-- A command that can be loaded has the words and the limit of its entry. -/
lemma of_ofFields {fields : List (String × Datum)} {f : Fixer} (h : Fixer.ofFields c limit fields = .ok f) :
    ∃ d, fields.lookup "command" = some d ∧ Command.argvOfDatum d = .ok f.argv ∧ f.category = c ∧
      f.limit = (fields.lookup "timeout").getD (.int limit) := by
  unfold Fixer.ofFields at h
  rcases hd : fields.lookup "command" with _ | d
  · rw [hd] at h
    exact absurd h nofun
  · rw [hd] at h
    dsimp only at h
    rcases hargv : Command.argvOfDatum d with e | argv
    · rw [hargv] at h
      exact absurd h nofun
    · rw [hargv] at h
      change (if _ then _ else _) = _ at h
      split at h
      · exact absurd h nofun
      · obtain rfl := Except.ok.inj h
        exact ⟨d, rfl, hargv, rfl, rfl⟩

/-- What is loaded is what the entry describes. -/
lemma configured_of_load {spec : TransformSpec} (h : load limit c spec = .ok x) : Configured limit c spec x := by
  rcases spec with text | fields
  · rw [load] at h
    rcases hr : Reference.load c text with f | r
    · rw [hr] at h
      cases h
    · rw [hr] at h
      obtain rfl := Except.ok.inj h
      obtain ⟨rfl, hmodule, hname⟩ := of_ofText? (of_reference_load hr)
      exact .reference hmodule hname
  · rw [load] at h
    rcases hf : Fixer.ofFields c limit fields with f | f
    · rw [hf] at h
      cases h
    · rw [hf] at h
      obtain rfl := Except.ok.inj h
      obtain ⟨d, hd, hargv, hcategory, hlimit⟩ := of_ofFields hf
      exact .command hd hargv (hcategory ▸ hlimit ▸ f.runs)

/-- What is loaded for an entry with a limit is what the entry describes, whatever holds where it has none. -/
lemma Configured.of_limit {limit' : Int} {spec : TransformSpec} (h : Configured limit c spec x)
    (hlimit : ∀ fields, spec = .command fields → (fields.lookup "timeout").isSome) : Configured limit' c spec x := by
  cases h with
  | reference hmodule hname => exact .reference hmodule hname
  | command hcommand hargv hruns =>
    obtain ⟨own, hown⟩ := Option.isSome_iff_exists.1 (hlimit _ rfl)
    refine .command hcommand hargv ?_
    rw [hown] at hruns ⊢
    exact hruns

/-- A command without a limit of its own tells the limit that it has. -/
lemma Configured.limit_eq {limit' : Int} {fields : List (String × Datum)} (h : Configured limit c (.command fields) x)
    (h' : Configured limit' c (.command fields) x) (hlimit : fields.lookup "timeout" = none) : limit = limit' := by
  cases h with
  | command _ _ hruns =>
    cases h' with
    | command _ _ hruns' =>
      rw [hlimit] at hruns hruns'
      exact Datum.int.inj (hruns.unique hruns').2.2

/-! ### The strategies of settings -/

/-- Whether strategies are the built-in ones and over them those that settings configure, with `limit` for the commands
that have none of their own. -/
def Overlaid (r : Registry) (limit : Int) (s : Settings) : Prop :=
  ∀ category, match s.transform? category with
    | some spec => ∃ x, r.get? category = some x ∧ Configured limit category spec x
    | none => r.get? category =
        if category = Category.importIssues.name ∨ category = Category.unusedCode.name then some unusedImports else none

lemma get?_builtin (category : String) : builtin.get? category =
    if category = Category.importIssues.name ∨ category = Category.unusedCode.name then some unusedImports else none := by
  rw [builtin, get?, List.lookup_cons, List.lookup_cons]
  by_cases hfirst : category = Category.importIssues.name
  · rw [hfirst, beq_self_eq_true, if_pos (.inl rfl)]
  · rw [beq_false_of_ne hfirst]
    by_cases hsecond : category = Category.unusedCode.name
    · rw [hsecond, beq_self_eq_true, if_pos (.inr rfl)]
    · rw [beq_false_of_ne hsecond, if_neg (not_or.2 ⟨hfirst, hsecond⟩)]
      rfl

variable {defaults : Defaults} {s : Settings}

/-- Settings with a limit of five seconds and one command. -/
def hurried (own : List (String × Datum)) : Settings where
  projectPath := "/w"
  transformTimeout := 5
  transforms := [("import-issues", .command (("command", .text "fix --all") :: own))]

lemma load_hurried (own : List (String × Datum)) : ∀ e ∈ (hurried own).transforms,
    ∃ x, load ({} : Defaults).transformTimeout e.1 e.2 = .ok x := by
  intro e he
  rw [List.mem_singleton.1 he]
  exact ⟨_, rfl⟩

end Registry

end Ratchet
