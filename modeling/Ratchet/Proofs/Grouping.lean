import Mathlib.Tactic
import Ratchet.Category.Grouping

/-!
Groups of diagnostics.

The groups of a list are its sublists by category, in the order of the catalogue. Every diagnostic is in
exactly one of them, so the sizes of the groups add up to the length of the list. A schedule has each
category once, and none that is disabled.
-/

namespace Ratchet.Grouping

/-- The groups that are not empty, in the order of `cs`. -/
def groupsBy (f : Category → List Diagnostic) (cs : List Category) : List (Category × List Diagnostic) :=
  (cs.map fun c => (c, f c)).filter fun g => !g.2.isEmpty

section groupsBy

variable (f : Category → List Diagnostic) (c : Category) (cs : List Category)

lemma groupsBy_cons_nil (h : f c = []) : groupsBy f (c :: cs) = groupsBy f cs := by
  rw [groupsBy, List.map_cons, List.filter_cons_of_neg (by simp [h])]
  rfl

lemma groupsBy_cons (h : f c ≠ []) : groupsBy f (c :: cs) = (c, f c) :: groupsBy f cs := by
  rw [groupsBy, List.map_cons, List.filter_cons_of_pos (by simp [h])]
  rfl

/-- Leaving out empty groups does not change the sum of the sizes. -/
lemma groupsBy_sum : ((groupsBy f cs).map fun g => g.2.length).sum = (cs.map fun c => (f c).length).sum := by
  induction cs with
  | nil => rfl
  | cons c cs ih =>
    by_cases h : f c = []
    · rw [groupsBy_cons_nil f c cs h, ih, List.map_cons, h, List.sum_cons, List.length_nil, zero_add]
    · rw [groupsBy_cons f c cs h, List.map_cons, List.sum_cons, ih, List.map_cons, List.sum_cons]

/-- A group that was left out is empty. -/
lemma groupsBy_lookup : ((groupsBy f cs).lookup c).getD [] = if c ∈ cs then f c else [] := by
  induction cs with
  | nil => rfl
  | cons k cs ih =>
    by_cases h : f k = []
    · rw [groupsBy_cons_nil f k cs h, ih]
      by_cases hc : c = k
      · simp [hc, h]
      · simp [hc]
    · rw [groupsBy_cons f k cs h, List.lookup_cons]
      by_cases hc : c = k
      · simp [hc]
      · have hne : (c == k) = false := by simpa using hc
        simpa [hne, hc] using ih

end groupsBy

variable (ds : List Diagnostic)

lemma byCategory_ofList :
    (ofList ds).byCategory = groupsBy (fun c => ds.filter (·.category == c)) Category.catalogue := by
  have hg : ∀ c : Category, ((ds.map fun d => (d.category, d)).filter (·.1 == c)).map (·.2) =
      ds.filter (·.category == c) := by
    intro c
    simp only [List.filter_map, List.map_map, Function.comp_def, List.map_id_fun', id_eq]
  simp only [ofList, groupTagged, groupsBy, hg]

/-- A diagnostic has one category of the catalogue. -/
lemma filter_cons_sum (d : Diagnostic) :
    (Category.catalogue.map fun c => ((d :: ds).filter (·.category == c)).length).sum =
      (Category.catalogue.map fun c => (ds.filter (·.category == c)).length).sum + 1 := by
  have hone : (Category.catalogue.map fun c => if (d.category == c) = true then 1 else 0).sum = 1 := by
    cases d.category <;> rfl
  simp only [← List.countP_eq_length_filter, List.countP_cons, List.sum_map_add, hone]

/-- The sizes of the groups add up. -/
theorem counts_sum : ((ofList ds).counts.map (·.2)).sum = ds.length := by
  rw [counts, List.map_map, byCategory_ofList]
  refine (groupsBy_sum _ Category.catalogue).trans ?_
  induction ds with
  | nil => rfl
  | cons d ds ih => rw [filter_cons_sum, ih, List.length_cons]

/-- The group of a category is made of its diagnostics. -/
theorem get_ofList (c : Category) : (ofList ds).get c = ds.filter (·.category == c) := by
  rw [get, byCategory_ofList, groupsBy_lookup, if_pos (Category.mem_catalogue c)]

/-! ### Schedules -/

/-- A category has one group at most. -/
lemma nodup_byCategory : ((ofList ds).byCategory.map (·.1)).Nodup := by
  have hc : Category.catalogue.Nodup := by decide
  rw [byCategory_ofList, groupsBy]
  refine (List.filter_sublist.map _).nodup ?_
  rw [List.map_map]
  exact (List.map_id _).symm ▸ hc

lemma perm_schedule (g : Grouping) (disabled : List String) : (g.schedule disabled).Perm
    ((g.byCategory.filter fun (c, _) => !disabled.contains c.name).map fun (c, ds) => Scheduled.ofGroup c ds) :=
  List.mergeSort_perm _ _

/-- A category is scheduled once at most. -/
theorem nodup_schedule (disabled : List String) :
    (((ofList ds).schedule disabled).map (·.category)).Nodup := by
  refine ((perm_schedule (ofList ds) disabled).map _).nodup_iff.2 ?_
  rw [List.map_map]
  exact (List.filter_sublist.map _).nodup (nodup_byCategory ds)

/-- A category that is disabled is not scheduled. -/
theorem enabled_of_mem_schedule {g : Grouping} {disabled : List String} {c : Scheduled}
    (h : c ∈ g.schedule disabled) : c.category.name ∉ disabled := by
  obtain ⟨⟨k, group⟩, hk, rfl⟩ := List.mem_map.1 ((perm_schedule g disabled).mem_iff.1 h)
  simpa [Scheduled.ofGroup] using (List.mem_filter.1 hk).2

/-- A category that is scheduled has diagnostics. -/
theorem get_ne_nil_of_mem_schedule {disabled : List String} {c : Scheduled} (h : c ∈ (ofList ds).schedule disabled) :
    (ofList ds).get c.category ≠ [] := by
  obtain ⟨⟨k, group⟩, hk, rfl⟩ := List.mem_map.1 ((perm_schedule (ofList ds) disabled).mem_iff.1 h)
  have hgroup := (List.mem_filter.1 hk).1
  rw [byCategory_ofList, groupsBy, List.mem_filter] at hgroup
  obtain ⟨hmap, hne⟩ := hgroup
  obtain ⟨c, -, hc⟩ := List.mem_map.1 hmap
  obtain ⟨rfl, rfl⟩ := Prod.mk.inj hc
  change (ofList ds).get c ≠ []
  rw [get_ofList]
  simpa using hne

end Ratchet.Grouping
