import Ratchet.Proofs.Tree.Children

/-!
How operations on trees fail.

Every operation refuses with a cause of the system, or because a path holds the character zero. So what makes files
never ends in another way.
-/

namespace Ratchet

namespace Path

/-- The directory of a path has characters of the path. -/
lemma mem_parent {s : String} {c : Char} (h : c ∈ (parent s).toList) : c ∈ s.toList := by
  rw [parent, splitLast, String.toList_ofList] at h
  split at h
  · exact List.mem_of_mem_take h
  · rw [Text.dropEndWhile, List.mem_reverse] at h
    exact List.mem_of_mem_take (List.mem_reverse.1 ((List.dropWhile_sublist _).subset h))

end Path

namespace Tree

variable {t t' : Tree} {path source target : String} {b : ByteArray} {f : Fault}

/-- Whether a fault is a refusal about a path: one of the system, or that the path holds the character zero. -/
def Refusal (path : String) (f : Fault) : Prop := (∃ c, f.kind = .system c) ∨ f.kind = .value ∧ '\x00' ∈ path.toList

lemma Refusal.contained (h : Refusal path f) : (f.kind.isSystem || f.kind.isValue) = true := by
  rcases h with ⟨c, hc⟩ | ⟨hv, -⟩
  · rw [hc]
    rfl
  · rw [hv]
    rfl

lemma about_error {α : Type} {r : Except SystemCause α} (h : about path r = .error f) : Refusal path f := by
  unfold about at h
  split at h
  · rename_i hz
    obtain rfl := Except.error.inj h
    exact .inr ⟨rfl, by simpa using hz⟩
  · rcases r with c | a
    · obtain rfl := Except.error.inj h
      exact .inl ⟨c, rfl⟩
    · cases h

lemma read_error (h : t.read path = .error f) : Refusal path f := about_error h

lemma write_error (h : t.write path b = .error f) : Refusal path f := about_error h

lemma makeDirectory_error (h : t.makeDirectory path = .error f) : Refusal path f := about_error h

lemma rename_error (h : t.rename source target = .error f) : Refusal source f := by
  rw [rename] at h
  split at h
  · cases h
  · rename_i c _
    obtain rfl := Except.error.inj h
    exact .inl ⟨c, rfl⟩

lemma copy_error (h : t.copy source target = .error f) : ∃ path, Refusal path f := by
  obtain ⟨same, hcopy⟩ : ∃ same : Bool, t.copy source target =
      if same then .error (.sameFile source (t.landing source target))
      else t.read source >>= fun b => t.write (t.landing source target) b := ⟨_, rfl⟩
  rw [hcopy] at h
  split at h
  · obtain rfl := Except.error.inj h
    exact ⟨source, .inl ⟨_, rfl⟩⟩
  · rcases hr : t.read source with g | c
    · rw [hr] at h
      obtain rfl := Except.error.inj h
      exact ⟨source, read_error hr⟩
    · rw [hr] at h
      exact ⟨t.landing source target, write_error h⟩

/-- The last step of making directories is refused about its path. -/
lemma again_or_refusal {again : Bool} {u : Tree}
    (h : (match u.makeDirectory path with
      | .ok t => .ok t
      | .error f => if (again && f.kind.isSystem && u.isDirectory path) = true then .ok u else .error f) =
      (.error f : Except Fault Tree)) : Refusal path f := by
  rcases hm : u.makeDirectory path with g | v
  · rw [hm] at h
    dsimp only at h
    split at h
    · cases h
    · obtain rfl := Except.error.inj h
      exact makeDirectory_error hm
  · rw [hm] at h
    cases h

/-- Making directories is refused about the path or one that leads to it, by induction on the fuel. -/
lemma makeDirectories_error {again : Bool} {fuel : Nat} (h : makeDirectories again fuel path t = .error f) :
    Refusal path f := by
  induction fuel generalizing t path f with
  | zero => cases h
  | succ fuel ih =>
    simp only [makeDirectories, bind, Except.bind, pure, Except.pure] at h
    generalize hsplit : (if (Path.splitLast path).2.isEmpty = true then Path.splitLast (Path.splitLast path).1
      else ((Path.splitLast path).1, (Path.splitLast path).2)) = split at h
    obtain ⟨head, tail⟩ := split
    have hhead : ∀ c ∈ head.toList, c ∈ path.toList := by
      intro c hc
      split at hsplit
      · obtain rfl : head = Path.parent (Path.parent path) := (congrArg Prod.fst hsplit).symm
        exact Path.mem_parent (Path.mem_parent hc)
      · obtain rfl : head = Path.parent path := (congrArg Prod.fst hsplit).symm
        exact Path.mem_parent hc
    have hdone : ∀ {u : Tree} {c : Bool} {r : Except Fault Tree}, (if c = true then .ok u else r) = .error f →
        r = .error f := by
      intro u c r hr
      split at hr
      · cases hr
      · exact hr
    dsimp only at h
    split at h
    · rcases hm : makeDirectories again fuel head t with g | u
      · rw [hm] at h
        dsimp only at h
        by_cases hg : (g.kind == .system .exists) = true
        · rw [if_pos hg] at h
          exact again_or_refusal (hdone h)
        · rw [if_neg hg] at h
          obtain rfl := Except.error.inj h
          exact (ih hm).imp_right fun hz => ⟨hz.1, hhead _ hz.2⟩
      · rw [hm] at h
        exact again_or_refusal (hdone h)
    · exact again_or_refusal (hdone h)

lemma ensureDirectories_error (h : t.ensureDirectories path = .error f) : Refusal path f := makeDirectories_error h

lemma newDirectories_error (h : t.newDirectories path = .error f) : Refusal path f := makeDirectories_error h

end Tree

end Ratchet
