import Ratchet.Proofs.Precedence

/-!
Groups and schedules of diagnostics as a whole.

Grouping takes a list apart twice. By category it leaves the sublists of the categories that have diagnostics, in the
order of the catalogue; by code those of the codes, in the order in which the codes come first. A schedule has one entry
for every category that has diagnostics and is not disabled. An entry tells of the diagnostics of its category only how
many they are and how many files they lie in, so a schedule does not depend on the order of the diagnostics.
-/

namespace Ratchet

section

variable {α : Type} [DecidableEq α]

/-- One more value at the end of a list is a first one if the list does not have it. -/
lemma eraseDups_concat (l : List α) (a : α) :
    (l ++ [a]).eraseDups = if a ∈ l then l.eraseDups else l.eraseDups ++ [a] := by
  rw [List.eraseDups_append]
  by_cases h : a ∈ l
  · simp [List.removeAll, h]
  · simp [List.removeAll, h, List.eraseDups_cons]

lemma nodup_eraseDups (l : List α) : l.eraseDups.Nodup := by
  induction l using List.reverseRecOn with
  | nil => exact List.nodup_nil
  | append_singleton l a ih =>
    rw [eraseDups_concat]
    split
    · exact ih
    · rename_i h
      exact List.nodup_append.2 ⟨ih, List.nodup_singleton a, fun b hb c hc hbc =>
        h (List.mem_eraseDups.1 (List.mem_singleton.1 hc ▸ hbc ▸ hb))⟩

lemma length_eraseDups (l : List α) : l.eraseDups.length = l.toFinset.card := by
  rw [← List.toFinset_card_of_nodup (nodup_eraseDups l)]
  congr 1
  ext a
  rw [List.mem_toFinset, List.mem_toFinset, List.mem_eraseDups]

end

namespace Diagnostic

/-- The files of diagnostics are their distinct files, in the order in which they come first. -/
lemma files_eq (ds : List Diagnostic) : files ds = (ds.map (·.file)).eraseDups := by
  induction ds using List.reverseRecOn with
  | nil => rfl
  | append_singleton ds d ih =>
    rw [List.map_append, List.map_singleton, eraseDups_concat, ← ih]
    have hmem : d.file ∈ ds.map (·.file) ↔ d.file ∈ files ds := by rw [ih, List.mem_eraseDups]
    simp only [hmem, files, List.foldl_append, List.foldl_cons, List.foldl_nil, List.contains_iff_mem,
      List.mem_reverse]
    split
    · rfl
    · rw [List.reverse_cons]

lemma length_files (ds : List Diagnostic) : (files ds).length = (ds.map (·.file)).toFinset.card := by
  rw [files_eq, length_eraseDups]

end Diagnostic

namespace Category

/-- The rank of a category is its place in the catalogue. -/
lemma rank_eq_idxOf (c : Category) : c.rank = catalogue.idxOf c := by cases c <;> rfl

end Category

namespace Grouping

variable (ds : List Diagnostic)

/-! ### Groups by code -/

variable {ds} in
/-- One more diagnostic goes to the end of the group of its code, or makes a new group at the end. -/
lemma addByCode_map {d : Diagnostic} {ks : List String} (hks : ks.Nodup)
    (hnone : d.code ∉ ks → ds.filter (·.code == d.code) = []) :
    addByCode d (ks.map fun k => (k, ds.filter (·.code == k))) =
      (if d.code ∈ ks then ks else ks ++ [d.code]).map fun k => (k, (ds ++ [d]).filter (·.code == k)) := by
  have hother : ∀ k, k ≠ d.code → (ds ++ [d]).filter (·.code == k) = ds.filter (·.code == k) := by
    intro k hk
    simp [List.filter_append, Ne.symm hk]
  have hown : (ds ++ [d]).filter (·.code == d.code) = ds.filter (·.code == d.code) ++ [d] := by
    simp [List.filter_append]
  -- By induction on the codes: the first one is that of the diagnostic, and then no other is, or it is passed over.
  induction ks with
  | nil =>
    rw [if_neg List.not_mem_nil, List.nil_append, List.map_singleton, hown, hnone List.not_mem_nil]
    rfl
  | cons k ks ih =>
    obtain ⟨hk, hks⟩ := List.nodup_cons.1 hks
    rw [List.map_cons, addByCode]
    by_cases hcode : k = d.code
    · subst hcode
      rw [if_pos (beq_self_eq_true _), if_pos List.mem_cons_self, List.map_cons, hown]
      congr 1
      exact List.map_congr_left fun j hj => by rw [hother j fun h => hk (h ▸ hj)]
    · have hmem : d.code ∈ k :: ks ↔ d.code ∈ ks := by simp [Ne.symm hcode]
      rw [if_neg (by simpa using hcode), ih hks fun h => hnone (mt hmem.1 h)]
      simp only [hmem]
      split
      · rw [List.map_cons, hother k hcode]
      · rw [List.cons_append, List.map_cons, hother k hcode]

/-- The groups by code are the sublists of the codes, in the order in which the codes come first. -/
lemma byCode_ofList :
    (ofList ds).byCode = (ds.map (·.code)).eraseDups.map fun k => (k, ds.filter (·.code == k)) := by
  induction ds using List.reverseRecOn with
  | nil => rfl
  | append_singleton ds d ih =>
    have hadd : (ofList (ds ++ [d])).byCode = addByCode d (ofList ds).byCode := by
      simp only [ofList, List.foldl_append, List.foldl_cons, List.foldl_nil]
    rw [hadd, ih, addByCode_map (nodup_eraseDups _), List.map_append, List.map_singleton, eraseDups_concat]
    · simp only [List.mem_eraseDups]
    · intro h
      rw [List.mem_eraseDups, List.mem_map] at h
      exact List.filter_eq_nil_iff.2 fun e he hcode => h ⟨e, he, beq_iff_eq.1 hcode⟩

/-! ### Groups by category -/

/-- The categories of the groups are in the order of the catalogue. -/
lemma ordered_byCategory : ((ofList ds).byCategory.map (·.1)).Pairwise fun a b => a.rank < b.rank := by
  have hcatalogue : Category.catalogue.Pairwise fun a b => a.rank < b.rank := by decide
  rw [byCategory_ofList, groupsBy]
  refine List.Pairwise.sublist (List.filter_sublist.map _) ?_
  rw [List.map_map]
  exact (List.map_id _).symm ▸ hcatalogue

/-- Leaving out empty groups leaves out no value. -/
lemma groupsBy_flatMap (f : Category → List Diagnostic) (cs : List Category) :
    (groupsBy f cs).flatMap (·.2) = cs.flatMap f := by
  induction cs with
  | nil => rfl
  | cons c cs ih =>
    by_cases h : f c = []
    · rw [groupsBy_cons_nil f c cs h, ih, List.flatMap_cons, h, List.nil_append]
    · rw [groupsBy_cons f c cs h, List.flatMap_cons, ih, List.flatMap_cons]

/-- The groups together are the diagnostics, each as often as it was given. -/
lemma perm_byCategory : ((ofList ds).byCategory.flatMap (·.2)).Perm ds := by
  -- Each diagnostic is counted in the group of its own category, and in no other one.
  rw [byCategory_ofList, groupsBy_flatMap, List.perm_iff_count]
  intro d
  have hgroup : ∀ c : Category, (ds.filter (·.category == c)).count d = if d.category = c then ds.count d else 0 := by
    intro c
    split
    · rename_i h
      exact List.count_filter (by simpa using h)
    · rename_i h
      exact List.count_eq_zero.2 fun hd => h (by simpa using (List.mem_filter.1 hd).2)
  have hsum : ∀ (k : Category) (n : Nat), (Category.catalogue.map fun c => if k = c then n else 0).sum = n := by
    intro k n
    cases k <;> simp [Category.catalogue]
  rw [List.count_flatMap]
  simp only [Function.comp_def, hgroup, hsum]

/-- A diagnostic is in one group only. -/
lemma existsUnique_byCategory {d : Diagnostic} (hd : d ∈ ds) : ∃! g, g ∈ (ofList ds).byCategory ∧ d ∈ g.2 := by
  have hmem : ∀ c, d ∈ (ofList ds).get c ↔ d.category = c := by
    intro c
    rw [get_ofList, List.mem_filter, beq_iff_eq]
    exact and_iff_right hd
  have hown := (hmem _).2 rfl
  refine ⟨(d.category, (ofList ds).get d.category), ⟨mem_byCategory.2 ⟨rfl, List.ne_nil_of_mem hown⟩, hown⟩, ?_⟩
  rintro ⟨c, es⟩ ⟨hgroup, hin⟩
  obtain ⟨rfl, -⟩ := mem_byCategory.1 hgroup
  obtain rfl := (hmem c).1 hin
  rfl

/-! ### Schedules -/

/-- What a schedule tells of the diagnostics of a category. -/
lemma ofGroup_eq (c : Category) : Scheduled.ofGroup c ds =
    ⟨c, Scheduled.priorityOf c ds.length (ds.map (·.file)).toFinset.card, ds.length,
      (ds.map (·.file)).toFinset.card⟩ := by
  rw [Scheduled.ofGroup, Diagnostic.length_files]

/-- The entries of a schedule are sorted by priority, and those of one priority by the catalogue. -/
lemma sorted_schedule (disabled : List String) : ((ofList ds).schedule disabled).Pairwise fun x y =>
    y.priority < x.priority ∨ x.priority = y.priority ∧ x.category.rank < y.category.rank := by
  have hbefore : ((ofList ds).schedule disabled).Pairwise fun x y => x.before y = true :=
    List.pairwise_mergeSort Scheduled.before_trans Scheduled.before_total _
  have hdistinct : ((ofList ds).schedule disabled).Pairwise fun x y => x.category ≠ y.category :=
    List.pairwise_map.1 (nodup_schedule ds disabled)
  refine (hbefore.and hdistinct).imp fun {x y} h => ?_
  obtain ⟨hxy, hne⟩ := h
  -- Entries that come before each other have one category, so the order of two is strict.
  have hstrict : ¬ y.before x = true := fun hyx => hne (Scheduled.category_eq_of_before hxy hyx)
  rw [Scheduled.before_iff] at hxy hstrict
  omega

/-- What grouping a list of diagnostics comes to. -/
structure Partitions (g : Grouping) (ds : List Diagnostic) : Prop where
  /-- A group holds the diagnostics that are classified as its category, in their order, and it has some. -/
  group : ∀ c es, (c, es) ∈ g.byCategory → es = ds.filter (fun d => Category.classify d.code d.message == c) ∧ es ≠ []
  ordered : (g.byCategory.map (·.1)).Pairwise fun a b => Category.catalogue.idxOf a < Category.catalogue.idxOf b
  once : ∀ d ∈ ds, ∃! x, x ∈ g.byCategory ∧ d ∈ x.2
  whole : (g.byCategory.flatMap (·.2)).Perm ds
  total : g.total = ds.length
  /-- The codes come in the order in which they come first. -/
  codes : g.byCode.map (·.1) = (ds.map (·.code)).eraseDups
  byCode : ∀ k es, (k, es) ∈ g.byCode → es = ds.filter (·.code == k)

/-- What scheduling a list of diagnostics without the disabled categories comes to. -/
structure Schedules (s : List Scheduled) (ds : List Diagnostic) (disabled : List String) : Prop where
  /-- The entries are those of the categories that have diagnostics and are not disabled. -/
  entry : ∀ x, x ∈ s ↔ ∃ c es, es = ds.filter (fun d => Category.classify d.code d.message == c) ∧ es ≠ [] ∧
    c.name ∉ disabled ∧ x = ⟨c, Scheduled.priorityOf c es.length (es.map (·.file)).toFinset.card, es.length,
      (es.map (·.file)).toFinset.card⟩
  once : (s.map (·.category)).Nodup
  sorted : s.Pairwise fun x y => y.priority < x.priority ∨
    x.priority = y.priority ∧ Category.catalogue.idxOf x.category < Category.catalogue.idxOf y.category

lemma ofList_partitions : Partitions (ofList ds) ds where
  group c es h := by
    obtain ⟨rfl, hne⟩ := mem_byCategory.1 h
    exact ⟨get_ofList ds c, hne⟩
  ordered := by
    simp only [← Category.rank_eq_idxOf]
    exact ordered_byCategory ds
  once d hd := existsUnique_byCategory ds hd
  whole := perm_byCategory ds
  total := by
    rw [total, ← List.sum_eq_foldr, ← List.length_flatMap]
    exact (perm_byCategory ds).length_eq
  codes := by
    rw [byCode_ofList, List.map_map]
    exact List.map_id _
  byCode k es h := by
    rw [byCode_ofList] at h
    obtain ⟨j, -, hj⟩ := List.mem_map.1 h
    obtain ⟨rfl, rfl⟩ := Prod.mk.inj hj
    rfl

lemma schedule_schedules (disabled : List String) : Schedules ((ofList ds).schedule disabled) ds disabled where
  entry x := by
    rw [mem_schedule]
    constructor
    · rintro ⟨c, hne, hc, rfl⟩
      exact ⟨c, _, get_ofList ds c, hne, hc, ofGroup_eq _ c⟩
    · rintro ⟨c, es, hes, hne, hc, rfl⟩
      obtain rfl : es = (ofList ds).get c := hes.trans (get_ofList ds c).symm
      exact ⟨c, hne, hc, (ofGroup_eq _ c).symm⟩
  once := nodup_schedule ds disabled
  sorted := by
    simp only [← Category.rank_eq_idxOf]
    exact sorted_schedule ds disabled

/-- **Every diagnostic has its place.** Grouping takes a list apart and keeps its order, and a schedule has each
category that has diagnostics and is not disabled once, with its numbers, the one with the highest priority first. -/
theorem grouped_and_scheduled : Partitions (ofList ds) ds ∧
    ∀ disabled, Schedules ((ofList ds).schedule disabled) ds disabled :=
  ⟨ofList_partitions ds, schedule_schedules ds⟩

/-! ### Diagnostics in another order -/

/-- What is scheduled of groups that are told by category. -/
lemma schedule_groupsBy (f : Category → List Diagnostic) (byCode : List (String × List Diagnostic))
    (disabled : List String) : (Grouping.mk (groupsBy f Category.catalogue) byCode).schedule disabled =
      (((Category.catalogue.filter fun c => !(f c).isEmpty && !disabled.contains c.name).map fun c =>
        Scheduled.ofGroup c (f c)).mergeSort Scheduled.before) := by
  rw [schedule, groupsBy, List.filter_filter, List.filter_map, List.map_map]
  simp only [Function.comp_def, Bool.and_comm]

variable {ds} {es : List Diagnostic}

/-- A schedule entry does not depend on the order of the diagnostics. -/
lemma ofGroup_perm (h : ds.Perm es) (c : Category) : Scheduled.ofGroup c es = Scheduled.ofGroup c ds := by
  rw [ofGroup_eq, ofGroup_eq, h.length_eq, List.toFinset_eq_of_perm _ _ (h.map _)]

/-- **The order does not matter.** Diagnostics that come in another order are scheduled alike. -/
theorem schedule_perm (h : ds.Perm es) (disabled : List String) :
    (ofList es).schedule disabled = (ofList ds).schedule disabled := by
  have hgroup : ∀ c, (ds.filter (·.category == c)).Perm (es.filter (·.category == c)) := fun c => h.filter _
  have hlist : ∀ fs : List Diagnostic, ofList fs =
      ⟨groupsBy (fun c => fs.filter (·.category == c)) Category.catalogue, (ofList fs).byCode⟩ := by
    intro fs
    rw [← byCategory_ofList]
  have hempty : ∀ c, (es.filter (·.category == c)).isEmpty = (ds.filter (·.category == c)).isEmpty :=
    fun c => (hgroup c).symm.isEmpty_eq
  -- Both schedules are sorts of one list, so nothing is to be said of the sort.
  rw [hlist es, hlist ds, schedule_groupsBy, schedule_groupsBy]
  simp only [hempty, fun c => ofGroup_perm (hgroup c) c]

/-- Names that are not found around a syntax error, and the other way round. -/
theorem schedule_perm_reversed : [lost 0, slip, lost 1].Perm [lost 1, slip, lost 0] ∧
    (ofList [lost 1, slip, lost 0]).schedule ["other"] = (ofList [lost 0, slip, lost 1]).schedule ["other"] := by
  have hperm : [lost 0, slip, lost 1].Perm [lost 1, slip, lost 0] := List.reverse_perm [lost 1, slip, lost 0]
  exact ⟨hperm, schedule_perm hperm ["other"]⟩

end Grouping

end Ratchet
