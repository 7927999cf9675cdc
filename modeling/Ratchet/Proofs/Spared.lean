import Ratchet.Proofs.Acts
import Ratchet.Proofs.Tree

/-!
What an act leaves alone.

`Spares P` says of an act that, however it ends, it leaves the files at the places `P` as they are, and
the directory that paths are seen from. Acts are built from acts, and so is what they spare; only changes
of the tree have to be looked at.
-/

namespace Ratchet

/-- Two worlds that are seen from the same directory and agree on the files at some places. -/
structure World.Agree (P : Place → Prop) (w w' : World) : Prop where
  here : w'.here = w.here
  files : ∀ p, P p → w'.tree.bytes? p = w.tree.bytes? p

variable {P : Place → Prop} {w w' w'' : World}

lemma World.Agree.refl (w : World) : World.Agree P w w := ⟨rfl, fun _ _ => rfl⟩

lemma World.Agree.trans (h : World.Agree P w w') (h' : World.Agree P w' w'') : World.Agree P w w'' :=
  ⟨h'.here.trans h.here, fun p hp => (h'.files p hp).trans (h.files p hp)⟩

lemma World.Agree.mono {Q : Place → Prop} (h : World.Agree P w w') (hQ : ∀ p, Q p → P p) : World.Agree Q w w' :=
  ⟨h.here, fun p hp => h.files p (hQ p hp)⟩

/-- An absolute path is seen from everywhere. -/
lemma World.located_absolute {path : String} (h : Path.isAbsolute path = true) : w.located path = path := by
  rw [located, if_neg]
  · rw [Path.join, if_pos h]
  · intro he
    rw [String.isEmpty_iff.1 he] at h
    exact Bool.false_ne_true h

namespace Act

variable {α β : Type}

lemma of_writeText_bind_ok {path s : String} {k : Unit → Act α} {y : α}
    (hp : Path.isAbsolute path = true) (h : runOn w (writeText path s >>= k) = (.ok y, w')) :
    ∃ t, w.tree.write path (Text.encode s) = .ok t ∧ runOn { w with tree := t } (k ()) = (.ok y, w') := by
  obtain ⟨⟨⟩, u, hu, h⟩ := of_bind_ok h
  rw [writeText, runOn_writeBytes, World.located_absolute hp] at hu
  obtain ⟨t, ht, rfl⟩ := of_edit_ok hu
  exact ⟨t, ht, h⟩

/-- An act leaves the files at some places alone. -/
def Spares (P : Place → Prop) (a : Act α) : Prop := ∀ w, World.Agree P w (runOn w a).2

namespace Spares

lemma mono {Q : Place → Prop} {a : Act α} (h : Spares P a) (hQ : ∀ p, Q p → P p) : Spares Q a :=
  fun w => (h w).mono hQ

lemma pure (x : α) : Spares P (pure x) := fun w => .refl w

lemma throw (f : Fault) : Spares P (throw f : Act α) := fun w => .refl w

lemma ofResult (r : Except Fault α) : Spares P (ofResult r) := by
  intro w
  rw [runOn_ofResult]
  exact .refl w

lemma bind {a : Act α} {k : α → Act β} (h : Spares P a) (hk : ∀ x, Spares P (k x)) : Spares P (a >>= k) := by
  intro w
  rw [runOn_bind]
  have ha := h w
  rcases hr : runOn w a with ⟨f | x, w'⟩
  · rwa [hr] at ha
  · rw [hr] at ha
    exact ha.trans (hk x w')

/-- What follows a result need spare only what it does with the value that there is. -/
lemma ofResult_bind {r : Except Fault α} {k : α → Act β} (h : ∀ x, r = .ok x → Spares P (k x)) :
    Spares P (Act.ofResult r >>= k) := by
  cases r with
  | error f => exact throw f
  | ok x => exact h x rfl

lemma map {a : Act α} (g : α → β) (h : Spares P a) : Spares P (g <$> a) := by
  rw [map_eq_pure_bind]
  exact h.bind fun _ => pure _

lemma get : Spares P (get : Act World) := fun w => .refl w

lemma look (g : World → α) : Spares P (look g) := fun w => .refl w

lemma outcome {a : Act α} (h : Spares P a) : Spares P (outcome a) := fun w => h w

lemma told {a : Act α} (meant : FaultKind → Bool) (wrap : Fault → Fault) (h : Spares P a) :
    Spares P (told meant wrap a) := by
  intro w
  rw [runOn_told]
  exact h w

lemma ite {a b : Act α} (c : Prop) [Decidable c] (h : Spares P a) (h' : Spares P b) :
    Spares P (if c then a else b) := by
  split
  · exact h
  · exact h'

lemma isFile (path : String) : Spares P (isFile path) := fun w => .refl w

lemma ask (g : Tree → Except Fault α) : Spares P (ask g) := by
  intro w
  rw [runOn_ask]
  exact .refl w

lemma readBytes (path : String) : Spares P (readBytes path) := by
  intro w
  rw [runOn_readBytes]
  exact .refl w

lemma readText (path : String) : Spares P (readText path) := by
  refine .bind (.bind (.readBytes path) fun b => ?_) fun _ => .pure _
  rcases Text.decode? b with _ | s
  · exact .throw _
  · exact .pure _

lemma note (e : Event) : Spares P (note e) := fun _ => ⟨rfl, fun _ _ => rfl⟩

lemma draw : Spares P draw := fun _ => ⟨rfl, fun _ _ => rfl⟩

lemma sleep (seconds : Float) : Spares P (sleep seconds) := by
  intro w
  rw [runOn_sleep]
  exact ⟨rfl, fun _ _ => rfl⟩

/-- A change of the tree spares what every accepted change spares. -/
lemma edit {g : Tree → Except Fault Tree}
    (h : ∀ t t', g t = .ok t' → ∀ p, P p → t'.bytes? p = t.bytes? p) : Spares P (edit g) := by
  intro w
  rw [runOn_edit]
  rcases hg : g w.tree with f | t
  · exact .refl w
  · exact ⟨rfl, h _ _ hg⟩

lemma ensureDirectories (path : String) : Spares P (ensureDirectories path) := by
  intro w
  rw [runOn_ensureDirectories]
  exact edit (fun t t' h p _ => (Tree.ensureDirectories_grown h).bytes? p) w

lemma writeBytes {path : String} (b : ByteArray) (hp : Path.isAbsolute path = true)
    (h : ∀ p, P p → p ≠ Path.lexical path) : Spares P (writeBytes path b) := by
  intro w
  rw [runOn_writeBytes, World.located_absolute hp]
  refine edit (fun t t' ht p hpP => Tree.bytes?_congr ?_) w
  rw [(Tree.write_ok ht).2.after, if_neg (h p hpP)]

lemma writeText {path : String} (s : String) (hp : Path.isAbsolute path = true)
    (h : ∀ p, P p → p ≠ Path.lexical path) : Spares P (writeText path s) :=
  writeBytes (Text.encode s) hp h

end Spares

/-! ### Looking, and failing -/

/-- An act that changes nothing, however it ends. -/
def Looks (a : Act α) : Prop := ∀ w, (runOn w a).2 = w

namespace Looks

lemma pure (x : α) : Looks (pure x) := fun _ => rfl

lemma throw (f : Fault) : Looks (throw f : Act α) := fun _ => rfl

lemma ofResult (r : Except Fault α) : Looks (ofResult r) := by
  intro w
  rw [runOn_ofResult]

lemma look (g : World → α) : Looks (look g) := fun _ => rfl

lemma isFile (path : String) : Looks (isFile path) := fun _ => rfl

lemma readBytes (path : String) : Looks (readBytes path) := by
  intro w
  rw [runOn_readBytes]

lemma bind {a : Act α} {k : α → Act β} (h : Looks a) (hk : ∀ x, Looks (k x)) : Looks (a >>= k) := by
  intro w
  rw [runOn_bind]
  have ha := h w
  rcases hr : runOn w a with ⟨f | x, w'⟩
  · rwa [hr] at ha
  · rw [hr] at ha
    obtain rfl := ha
    exact hk x w'

lemma map {a : Act α} (g : α → β) (h : Looks a) : Looks (g <$> a) := by
  intro w
  rw [runOn_map]
  exact h w

lemma outcome {a : Act α} (h : Looks a) : Looks (outcome a) := fun w => h w

lemma told {a : Act α} (meant : FaultKind → Bool) (wrap : Fault → Fault) (h : Looks a) :
    Looks (told meant wrap a) := by
  intro w
  rw [runOn_told]
  exact h w

lemma ite {a b : Act α} (c : Prop) [Decidable c] (h : Looks a) (h' : Looks b) : Looks (if c then a else b) := by
  split
  · exact h
  · exact h'

lemma readText (path : String) : Looks (readText path) := by
  refine .bind (.bind (.readBytes path) fun b => ?_) fun _ => .pure _
  rcases Text.decode? b with _ | s
  · exact .throw _
  · exact .pure _

lemma spares {a : Act α} (h : Looks a) : Spares P a := by
  intro w
  rw [h w]
  exact .refl w

lemma eq {a : Act α} {r : Except Fault α} (h : Looks a) (hr : runOn w a = (r, w')) : w' = w := by
  rw [← h w, hr]

end Looks

/-- An act that leaves the files at some places alone when it fails. -/
def FailsSparing (P : Place → Prop) (a : Act α) : Prop :=
  ∀ w f w', runOn w a = (.error f, w') → World.Agree P w w'

namespace FailsSparing

lemma pure (x : α) : FailsSparing P (pure x) := fun _ _ _ h => absurd (Prod.mk.inj h).1 nofun

/-- A change of the tree that is refused leaves everything alone. -/
lemma edit (g : Tree → Except Fault Tree) : FailsSparing P (edit g) := by
  intro w f w' h
  rw [runOn_edit] at h
  rcases hg : g w.tree with f' | t
  · rw [hg] at h
    rw [← (Prod.mk.inj h).2]
    exact .refl w
  · rw [hg] at h
    exact absurd (Prod.mk.inj h).1 nofun

/-- An act fails in its first part, or in what follows a first part that spares the places. -/
lemma bind {a : Act α} {k : α → Act β} (h : Spares P a) (hk : ∀ x, FailsSparing P (k x)) :
    FailsSparing P (a >>= k) := by
  intro w f w' hr
  rw [runOn_bind] at hr
  have ha := h w
  rcases hx : runOn w a with ⟨e | x, u⟩
  · rw [hx] at hr ha
    rwa [← (Prod.mk.inj hr).2]
  · rw [hx] at hr ha
    exact ha.trans (hk x u f w' hr)

/-- What follows an act without ever failing does not matter. -/
lemma bind_pure {a : Act α} (g : α → β) (h : FailsSparing P a) : FailsSparing P (a >>= fun x => Pure.pure (g x)) := by
  intro w f w' hr
  rw [runOn_bind] at hr
  rcases hx : runOn w a with ⟨e | x, u⟩
  · rw [hx] at hr
    rw [← (Prod.mk.inj hr).2]
    exact h w e u hx
  · rw [hx] at hr
    exact absurd (Prod.mk.inj hr).1 nofun

end FailsSparing

end Act

end Ratchet
