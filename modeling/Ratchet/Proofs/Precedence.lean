import Ratchet.Proofs.Grouping

/-!
Which category is remedied first.

The priority of a category is its base and a boost for the number of its diagnostics and files, which comes to three at
most. So a category with a base of at most seven stands behind the syntax errors, whatever it holds. Two categories have
a higher base than that: a large one of them is remedied before a small number of syntax errors. `syntax_first_iff` says
when.
-/

namespace Ratchet.Scheduled

/-- What the number of diagnostics and files adds to the priority of a category. -/
def boost (ds : List Diagnostic) : Nat := min ((Diagnostic.files ds).length * 10) 200 + min ds.length 100

lemma boost_nil : boost [] = 0 := rfl

lemma boost_le (ds : List Diagnostic) : boost ds ≤ 300 := by
  unfold boost
  omega

lemma priority_ofGroup (c : Category) (ds : List Diagnostic) :
    (ofGroup c ds).priority = c.basePriority * 100 + boost ds := Nat.add_assoc _ _ _

lemma before_iff {x y : Scheduled} : x.before y = true ↔
    y.priority < x.priority ∨ x.priority = y.priority ∧ x.category.rank ≤ y.category.rank := by
  simp [before]

lemma before_trans (x y z : Scheduled) (hxy : x.before y = true) (hyz : y.before z = true) : x.before z = true := by
  rw [before_iff] at *
  omega

lemma before_total (x y : Scheduled) : (x.before y || y.before x) = true := by
  rw [Bool.or_eq_true, before_iff, before_iff]
  omega

/-- Two categories that may stand in either order are one. -/
lemma category_eq_of_before {x y : Scheduled} (hxy : x.before y = true) (hyx : y.before x = true) :
    x.category = y.category := by
  have hinjective : ∀ c d : Category, c.rank = d.rank → c = d := by
    intro c d
    cases c <;> cases d <;> decide
  rw [before_iff] at hxy hyx
  exact hinjective _ _ (by omega)

/-- The syntax errors stand before a category that does not make up for its lower base. -/
lemma syntax_before_iff {c : Category} {ds es : List Diagnostic} :
    (ofGroup .syntaxErrors ds).before (ofGroup c es) = true ↔ c.basePriority * 100 + boost es ≤ 1000 + boost ds := by
  have hrank : Category.syntaxErrors.rank ≤ c.rank := Nat.zero_le _
  have hbase : Category.syntaxErrors.basePriority = 10 := rfl
  rw [before_iff, priority_ofGroup, priority_ofGroup, hbase]
  change _ ∨ _ ∧ Category.syntaxErrors.rank ≤ c.rank ↔ _
  omega

end Ratchet.Scheduled

namespace Ratchet.Grouping

open Scheduled

variable {ds : List Diagnostic} {disabled : List String}

lemma mem_byCategory {c : Category} {es : List Diagnostic} :
    (c, es) ∈ (ofList ds).byCategory ↔ es = (ofList ds).get c ∧ es ≠ [] := by
  simp only [byCategory_ofList, ← get_ofList, groupsBy, List.mem_filter, List.mem_map]
  constructor
  · rintro ⟨⟨k, -, hk⟩, hne⟩
    obtain ⟨rfl, rfl⟩ := Prod.mk.inj hk
    exact ⟨rfl, by simpa using hne⟩
  · rintro ⟨rfl, hne⟩
    exact ⟨⟨c, Category.mem_catalogue c, rfl⟩, by simpa using hne⟩

/-- What is scheduled are the groups of the categories that are not disabled. -/
lemma mem_schedule {x : Scheduled} : x ∈ (ofList ds).schedule disabled ↔
    ∃ c, (ofList ds).get c ≠ [] ∧ c.name ∉ disabled ∧ x = ofGroup c ((ofList ds).get c) := by
  rw [(perm_schedule (ofList ds) disabled).mem_iff, List.mem_map]
  constructor
  · rintro ⟨⟨c, es⟩, hmem, rfl⟩
    obtain ⟨hgroup, henabled⟩ := List.mem_filter.1 hmem
    obtain ⟨rfl, hne⟩ := mem_byCategory.1 hgroup
    exact ⟨c, hne, by simpa using henabled, rfl⟩
  · rintro ⟨c, hne, henabled, rfl⟩
    exact ⟨(c, (ofList ds).get c), List.mem_filter.2 ⟨mem_byCategory.2 ⟨rfl, hne⟩, by simpa using henabled⟩, rfl⟩

/-- A category comes first when it may stand before all that are scheduled. -/
lemma head_schedule_iff {c : Category} (hne : (ofList ds).get c ≠ []) (henabled : c.name ∉ disabled) :
    ((ofList ds).schedule disabled).head?.map (·.category) = some c ↔
      ∀ x ∈ (ofList ds).schedule disabled, (ofGroup c ((ofList ds).get c)).before x = true := by
  have hmem : ofGroup c ((ofList ds).get c) ∈ (ofList ds).schedule disabled := mem_schedule.2 ⟨c, hne, henabled, rfl⟩
  have hsorted : ((ofList ds).schedule disabled).Pairwise fun x y => x.before y = true :=
    List.pairwise_mergeSort before_trans before_total _
  have hdiff : ∀ x ∈ (ofList ds).schedule disabled, x.category = c → x = ofGroup c ((ofList ds).get c) := by
    intro x hx hc
    obtain ⟨k, -, -, rfl⟩ := mem_schedule.1 hx
    obtain rfl : k = c := hc
    rfl
  rcases hs : (ofList ds).schedule disabled with _ | ⟨first, rest⟩
  · rw [hs] at hmem
    exact absurd hmem List.not_mem_nil
  rw [hs] at hmem hsorted hdiff
  obtain ⟨hfirst, -⟩ := List.pairwise_cons.1 hsorted
  have hself : ∀ x : Scheduled, x.before x = true := fun x => by simpa using before_total x x
  rw [List.head?_cons, Option.map_some, Option.some_inj]
  constructor
  · intro hc x hx
    rw [← hdiff first List.mem_cons_self hc]
    rcases List.mem_cons.1 hx with rfl | hx
    · exact hself x
    · exact hfirst x hx
  · intro hall
    rcases List.mem_cons.1 hmem with heq | hmem
    · rw [← heq]
      rfl
    · exact category_eq_of_before (hfirst _ hmem) (hall first List.mem_cons_self)

/-- The syntax errors come first when no category that is scheduled makes up for its lower base. -/
lemma syntax_head_iff (hthere : ∃ d ∈ ds, d.category = .syntaxErrors)
    (henabled : Category.syntaxErrors.name ∉ disabled) :
    ((ofList ds).schedule disabled).head?.map (·.category) = some .syntaxErrors ↔
      ∀ c : Category, c.name ∉ disabled →
        c.basePriority * 100 + boost ((ofList ds).get c) ≤ 1000 + boost ((ofList ds).get .syntaxErrors) := by
  obtain ⟨d, hd, hcategory⟩ := hthere
  have hne : (ofList ds).get .syntaxErrors ≠ [] := by
    rw [get_ofList]
    exact List.ne_nil_of_mem (List.mem_filter.2 ⟨hd, by simpa using hcategory⟩)
  have hbase : ∀ c : Category, c.basePriority ≤ 10 := fun c => by cases c <;> decide
  rw [head_schedule_iff hne henabled]
  constructor
  · intro hall c hc
    by_cases hgroup : (ofList ds).get c = []
    · have := hbase c
      rw [hgroup, boost_nil]
      omega
    · exact syntax_before_iff.1 (hall _ (mem_schedule.2 ⟨c, hgroup, hc, rfl⟩))
  · intro hall x hx
    obtain ⟨c, -, hc, rfl⟩ := mem_schedule.1 hx
    exact syntax_before_iff.2 (hall c hc)

/-- **When syntax errors go first.** Whatever other categories hold, only two of them can come before the syntax errors:
that of the imports with a boost that is greater by more than the one base that it is behind, and that of the
declarations with a boost that is greater by more than two. -/
theorem syntax_first_iff (hthere : ∃ d ∈ ds, d.category = .syntaxErrors)
    (henabled : Category.syntaxErrors.name ∉ disabled) :
    ((ofList ds).schedule disabled).head?.map (·.category) = some .syntaxErrors ↔
      (Category.importIssues.name ∉ disabled →
        boost ((ofList ds).get .importIssues) ≤ boost ((ofList ds).get .syntaxErrors) + 100) ∧
      (Category.missingDeclarations.name ∉ disabled →
        boost ((ofList ds).get .missingDeclarations) ≤ boost ((ofList ds).get .syntaxErrors) + 200) := by
  rw [syntax_head_iff hthere henabled]
  constructor
  · intro hall
    refine ⟨fun h => ?_, fun h => ?_⟩
    · have := hall _ h
      simp only [Category.basePriority] at this
      omega
    · have := hall _ h
      simp only [Category.basePriority] at this
      omega
  · rintro ⟨himport, hmissing⟩ c hc
    have hle := boost_le ((ofList ds).get c)
    cases c <;> simp only [Category.basePriority] at *
    case importIssues =>
      have := himport hc
      omega
    case missingDeclarations =>
      have := hmissing hc
      omega
    all_goals omega

/-- A syntax error in one file. -/
def slip : Diagnostic := ⟨"src/a.ts", 1, 1, "TS1005", "", .critical⟩

/-- A name that is not found, in the file with a number. -/
def lost (n : Nat) : Diagnostic := ⟨"src/f" ++ toString n ++ ".ts", 1, 1, "TS2304", "", .high⟩

/-- A syntax error goes before a name that is not found. -/
theorem syntax_first_few : (∃ d ∈ [lost 0, slip], d.category = .syntaxErrors) ∧
    Category.syntaxErrors.name ∉ ([] : List String) ∧
    ((ofList [lost 0, slip]).schedule []).head?.map (·.category) = some .syntaxErrors := by
  have hthere : ∃ d ∈ [lost 0, slip], d.category = .syntaxErrors := by decide
  exact ⟨hthere, List.not_mem_nil, (syntax_first_iff hthere List.not_mem_nil).2 (by decide)⟩

/-- One syntax error and names that are not found in twelve files. -/
def swamped : List Diagnostic := slip :: (List.range 12).map lost

/-- Syntax errors do not always go first: names that are not found in twelve files go before a syntax error in one. -/
theorem not_syntax_first_swamped : (∃ d ∈ swamped, d.category = .syntaxErrors) ∧
    ((ofList swamped).schedule []).head?.map (·.category) ≠ some .syntaxErrors := by
  have hthere : ∃ d ∈ swamped, d.category = .syntaxErrors := by decide
  have hboost : ¬ Category.importIssues.basePriority * 100 + boost ((ofList swamped).get .importIssues) ≤
      1000 + boost ((ofList swamped).get .syntaxErrors) := by decide
  exact ⟨hthere, fun hfirst => hboost ((syntax_head_iff hthere List.not_mem_nil).1 hfirst _ List.not_mem_nil)⟩

end Ratchet.Grouping
