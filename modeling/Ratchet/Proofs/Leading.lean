import Mathlib.Order.Defs.Unbundled
import Ratchet.Proofs.Spared

/-!
Where a computation leads.

`Leads R` says of a computation that every run of it, however it ends, leads from a state to one that is related to
it. For a preorder this is kept by everything that computations are built with; only changes of the state have to be
looked at.
-/

namespace Ratchet

namespace Act

variable {τ α β : Type} {R : τ → τ → Prop}

/-- Every run of a computation leads to a state that is related to the one in which it began. -/
def Leads (R : τ → τ → Prop) (a : Doing τ α) : Prop := ∀ w, R w (runOn w a).2

namespace Leads

section
variable [Std.Refl R]

lemma pure (x : α) : Leads R (Pure.pure x) := fun w => refl w

lemma throw (f : Fault) : Leads R (MonadExcept.throw f : Doing τ α) := fun w => refl w

lemma get : Leads R (MonadState.get : Doing τ τ) := fun w => refl w

lemma ofResult (r : Except Fault α) : Leads R (Act.ofResult r : Doing τ α) := by
  intro w
  rw [runOn_ofResult]
  exact refl w

/-- What follows a result need be looked at only for the value that there is. -/
lemma ofResult_bind {r : Except Fault α} {k : α → Doing τ β} (h : ∀ x, r = .ok x → Leads R (k x)) :
    Leads R (Act.ofResult r >>= k) := by
  cases r with
  | error f => exact throw f
  | ok x => exact h x rfl

end

/-- What follows a computation need be looked at only for the values that it can come to. -/
lemma bind_ok [IsTrans τ R] {a : Doing τ α} {k : α → Doing τ β} (h : Leads R a)
    (hk : ∀ w x w', runOn w a = (.ok x, w') → R w' (runOn w' (k x)).2) : Leads R (a >>= k) := by
  intro w
  rw [runOn_bind]
  have ha := h w
  rcases hr : runOn w a with ⟨f | x, w'⟩
  · rwa [hr] at ha
  · rw [hr] at ha
    exact IsTrans.trans _ _ _ ha (hk w x w' hr)

lemma bind [IsTrans τ R] {a : Doing τ α} {k : α → Doing τ β} (h : Leads R a) (hk : ∀ x, Leads R (k x)) :
    Leads R (a >>= k) :=
  h.bind_ok fun _ x w' _ => hk x w'

lemma map {a : Doing τ α} (g : α → β) (h : Leads R a) : Leads R (g <$> a) := by
  intro w
  rw [runOn_map]
  exact h w

lemma outcome {a : Doing τ α} (h : Leads R a) : Leads R (outcome a) := fun w => h w

lemma told {a : Doing τ α} (meant : FaultKind → Bool) (wrap : Fault → Fault) (h : Leads R a) :
    Leads R (told meant wrap a) := by
  intro w
  rw [runOn_told]
  exact h w

lemma ite {a b : Doing τ α} (c : Prop) [Decidable c] (h : Leads R a) (h' : Leads R b) :
    Leads R (if c then a else b) := by
  split
  · exact h
  · exact h'

end Leads

/-! ### Worlds -/

namespace Leads

variable {R : World → World → Prop} [Std.Refl R]

lemma of_looks {a : Act α} (h : Looks a) : Leads R a := by
  intro w
  rw [h w]
  exact refl w

/-- A change of the tree leads where every accepted change leads. -/
lemma edit {g : Tree → Except Fault Tree} (h : ∀ w t, g w.tree = .ok t → R w { w with tree := t }) :
    Leads R (edit g) := by
  intro w
  rw [runOn_edit]
  rcases hg : g w.tree with f | t
  · exact refl w
  · exact h w t hg

end Leads

/-- The relation of worlds between which the worlds of two states stand. -/
def Beside {σ : Type} (R : World → World → Prop) (q q' : σ × World) : Prop := R q.2 q'.2

section

variable {σ τ : Type} {R : World → World → Prop}

instance [Std.Refl R] : Std.Refl (Beside (σ := σ) R) := ⟨fun q => refl q.2⟩

instance [IsTrans World R] : IsTrans (σ × World) (Beside R) := ⟨fun _ _ _ h h' => IsTrans.trans (r := R) _ _ _ h h'⟩

namespace Leads

lemma beside {a : Act α} (h : Leads R a) : Leads (Beside (σ := σ) R) (beside a) := fun q => h q.2

lemma kept [Std.Refl R] : Leads (Beside R) (kept : Keeping σ σ) := fun q => refl q.2

lemma keep [Std.Refl R] (f : σ → σ) : Leads (Beside R) (keep f) := fun q => refl q.2

lemma within (part : τ → σ) (put : σ → τ → τ) {a : Keeping σ α} (h : Leads (Beside R) a) :
    Leads (Beside R) (within part put a) := fun q => h (part q.1, q.2)

end Leads

end

end Act

/-! ### The journal -/

/-- What the entries of one sort in the journal of a world tell. -/
def World.tells {β : Type} (f : Event → Option β) (w : World) : List β := w.journal.toList.filterMap f

lemma World.tells_note {β : Type} (f : Event → Option β) (w : World) (e : Event) :
    (w.note e).tells f = w.tells f ++ (f e).toList := by
  rw [tells, note, Array.toList_push, List.filterMap_append]
  rcases h : f e with _ | x
  · rw [List.filterMap_cons_none h]
    rfl
  · rw [List.filterMap_cons_some h]
    rfl

end Ratchet
