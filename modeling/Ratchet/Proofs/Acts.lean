import Mathlib.Tactic
import Ratchet.World

/-!
Running computations.

`Act.runOn` is a function from a state to a result and a state. The lemmas here say what it does on each
way of building a computation, so that a proof about a computation never looks at how faults and states
are threaded.
-/

namespace Ratchet

lemma Text.decode?_encode (s : String) : Text.decode? (Text.encode s) = some s := by
  exact dif_pos s.isValidUTF8

/-- A text without carriage returns has the line breaks that it was written with. -/
lemma Text.unifyBreaks_eq_self {s : List Char} (h : '\r' ∉ s) : Text.unifyBreaks s = s := by
  fun_induction Text.unifyBreaks s with
  | case1 => rfl
  | case2 s _ => exact absurd List.mem_cons_self h
  | case3 c s _ ih =>
    obtain ⟨hc, hs⟩ := not_or.1 (mt List.mem_cons.2 h)
    rw [ih hs, if_neg (by simpa using Ne.symm hc)]

namespace Act

section

variable {σ τ α β : Type} {s s' : σ} {w : World} {f : Fault}

lemma ok_of_toOption {r : Except Fault α} {x : α} (h : r.toOption = some x) : r = .ok x := by
  cases r with
  | error f => exact absurd h nofun
  | ok y => rw [Option.some.inj h]

lemma of_toOption {a : Doing σ α} {x : α} (h : (runOn s a).1.toOption = some x) : ∃ s', runOn s a = (.ok x, s') :=
  ⟨_, Prod.ext (ok_of_toOption h) rfl⟩

/-! ### Plain computations -/

@[simp] lemma runOn_pure (x : α) : runOn s (pure x : Doing σ α) = (.ok x, s) := rfl

@[simp] lemma runOn_throw : runOn s (throw f : Doing σ α) = (.error f, s) := rfl

@[simp] lemma runOn_get : runOn s (get : Doing σ σ) = (.ok s, s) := rfl

@[simp] lemma runOn_modify (g : σ → σ) : runOn s (modify g : Doing σ PUnit) = (.ok (), g s) := rfl

lemma runOn_bind (a : Doing σ α) (k : α → Doing σ β) :
    runOn s (a >>= k) = match runOn s a with
      | (.ok x, s') => runOn s' (k x)
      | (.error f, s') => (.error f, s') := by
  change ExceptT.bindCont k (runOn s a).1 (runOn s a).2 = _
  rcases runOn s a with ⟨_ | _, _⟩ <;> rfl

lemma runOn_bind_ok {a : Doing σ α} {x : α} (k : α → Doing σ β) (h : runOn s a = (.ok x, s')) :
    runOn s (a >>= k) = runOn s' (k x) := by
  rw [runOn_bind, h]

lemma runOn_bind_error {a : Doing σ α} (k : α → Doing σ β) (h : runOn s a = (.error f, s')) :
    runOn s (a >>= k) = (.error f, s') := by
  rw [runOn_bind, h]

/-- A computation that goes on comes to its value through the value of its first part. -/
lemma of_bind_ok {a : Doing σ α} {k : α → Doing σ β} {y : β} (h : runOn s (a >>= k) = (.ok y, s')) :
    ∃ x u, runOn s a = (.ok x, u) ∧ runOn u (k x) = (.ok y, s') := by
  rw [runOn_bind] at h
  rcases ha : runOn s a with ⟨f | x, u⟩
  · rw [ha] at h
    exact absurd (Prod.mk.inj h).1 nofun
  · rw [ha] at h
    exact ⟨x, u, rfl, h⟩

/-- A computation that goes on fails in its first part or in what follows. -/
lemma of_bind_error {a : Doing σ α} {k : α → Doing σ β} (h : runOn s (a >>= k) = (.error f, s')) :
    runOn s a = (.error f, s') ∨ ∃ x u, runOn s a = (.ok x, u) ∧ runOn u (k x) = (.error f, s') := by
  rw [runOn_bind] at h
  rcases ha : runOn s a with ⟨g | x, u⟩
  · rw [ha] at h
    obtain ⟨hf, rfl⟩ := Prod.mk.inj h
    exact .inl (by rw [Except.error.inj hf])
  · rw [ha] at h
    exact .inr ⟨x, u, rfl, h⟩

lemma runOn_map (g : α → β) (a : Doing σ α) :
    runOn s (g <$> a) = ((runOn s a).1.map g, (runOn s a).2) := by
  rw [map_eq_pure_bind, runOn_bind]
  rcases runOn s a with ⟨_ | _, _⟩ <;> rfl

@[simp] lemma runOn_ofResult (r : Except Fault α) : runOn s (ofResult r : Doing σ α) = (r, s) := by
  cases r <;> rfl

/-- What follows a result goes on with the value that there is. -/
lemma of_ofResult_bind_ok {r : Except Fault α} {k : α → Doing σ β} {y : β}
    (h : runOn s (ofResult r >>= k) = (.ok y, s')) : ∃ x, r = .ok x ∧ runOn s (k x) = (.ok y, s') := by
  cases r with
  | error f => exact absurd (Prod.mk.inj h).1 nofun
  | ok x => exact ⟨x, rfl, h⟩

@[simp] lemma runOn_outcome (a : Doing σ α) :
    runOn s (outcome a) = (.ok (runOn s a).1, (runOn s a).2) := rfl

lemma runOn_outcome_bind (a : Doing σ α) (k : Except Fault α → Doing σ β) :
    runOn s (outcome a >>= k) = runOn (runOn s a).2 (k (runOn s a).1) := rfl

lemma runOn_tryCatch (a : Doing σ α) (handle : Fault → Doing σ α) :
    runOn s (tryCatch a handle) = match runOn s a with
      | (.ok x, s') => (.ok x, s')
      | (.error f, s') => runOn s' (handle f) := by
  simp only [runOn, tryCatch, tryCatchThe, MonadExceptOf.tryCatch, ExceptT.tryCatch, ExceptT.run_mk,
    StateT.run_bind]
  generalize hp : StateT.run (ExceptT.run a) s = p
  change StateT.run a s = p at hp
  rw [hp]
  rcases p with ⟨_ | _, _⟩
  · rfl
  · rfl

/-- Telling a fault from further out changes the fault and nothing else. -/
lemma runOn_told (meant : FaultKind → Bool) (wrap : Fault → Fault) (a : Doing σ α) :
    runOn s (told meant wrap a) =
      ((runOn s a).1.mapError fun f => if meant f.kind then wrap f else f, (runOn s a).2) := by
  rw [told, runOn_tryCatch]
  rcases runOn s a with ⟨_ | _, _⟩ <;> rfl

lemma of_told_ok {meant : FaultKind → Bool} {wrap : Fault → Fault} {a : Doing σ α} {x : α}
    (h : runOn s (told meant wrap a) = (.ok x, s')) : runOn s a = (.ok x, s') := by
  rw [runOn_told] at h
  rcases hr : runOn s a with ⟨f | y, u⟩
  · rw [hr] at h
    exact absurd (Prod.mk.inj h).1 nofun
  · rw [hr] at h
    exact h

lemma runOn_ite (c : Prop) [Decidable c] (a b : Doing σ α) :
    runOn s (if c then a else b) = if c then runOn s a else runOn s b := by
  split <;> rfl

/-! ### Beside a state -/

@[simp] lemma runOn_beside (a : Act α) (x : σ) :
    runOn (x, w) (beside a) = ((runOn w a).1, (x, (runOn w a).2)) := rfl

@[simp] lemma runOn_within (part : τ → σ) (put : σ → τ → τ) (a : Keeping σ α) (t : τ) :
    runOn (t, w) (within part put a) =
      ((runOn (part t, w) a).1, (put (runOn (part t, w) a).2.1 t, (runOn (part t, w) a).2.2)) := rfl

@[simp] lemma runOn_kept (x : σ) : runOn (x, w) kept = (.ok x, (x, w)) := rfl

@[simp] lemma runOn_keep (g : σ → σ) (x : σ) : runOn (x, w) (keep g) = (.ok (), (g x, w)) := rfl

/-! ### The tree -/

@[simp] lemma runOn_look (g : World → α) : runOn w (look g) = (.ok (g w), w) := rfl

@[simp] lemma runOn_ask (g : Tree → Except Fault α) : runOn w (ask g) = (g w.tree, w) := by
  change runOn w (get >>= fun w => ofResult (g w.tree)) = _
  rw [runOn_bind, runOn_get]
  exact runOn_ofResult _

/-- A change of the tree that is refused changes nothing. -/
lemma runOn_edit (g : Tree → Except Fault Tree) :
    runOn w (edit g) = match g w.tree with
      | .ok t => (.ok (), { w with tree := t })
      | .error f => (.error f, w) := by
  change runOn w (ask g >>= fun t => modify fun w => { w with tree := t }) = _
  rw [runOn_bind, runOn_ask]
  cases g w.tree <;> rfl

lemma runOn_edit_ok {g : Tree → Except Fault Tree} {t : Tree} (h : g w.tree = .ok t) :
    runOn w (edit g) = (.ok (), { w with tree := t }) := by
  rw [runOn_edit, h]

lemma of_edit_ok {g : Tree → Except Fault Tree} {w' : World} (h : runOn w (edit g) = (.ok (), w')) :
    ∃ t, g w.tree = .ok t ∧ w' = { w with tree := t } := by
  rw [runOn_edit] at h
  rcases hg : g w.tree with f | t
  · rw [hg] at h
    exact absurd (Prod.mk.inj h).1 nofun
  · rw [hg] at h
    exact ⟨t, rfl, (Prod.mk.inj h).2.symm⟩

lemma of_edit_error {g : Tree → Except Fault Tree} {w' : World} (h : runOn w (edit g) = (.error f, w')) :
    g w.tree = .error f ∧ w' = w := by
  rw [runOn_edit] at h
  rcases hg : g w.tree with f' | t
  · rw [hg] at h
    obtain ⟨hf, rfl⟩ := Prod.mk.inj h
    exact ⟨by rw [Except.error.inj hf], rfl⟩
  · rw [hg] at h
    exact absurd (Prod.mk.inj h).1 nofun

lemma of_edit_bind_ok {g : Tree → Except Fault Tree} {k : Unit → Act α} {y : α} {w' : World}
    (h : runOn w (edit g >>= k) = (.ok y, w')) :
    ∃ t, g w.tree = .ok t ∧ runOn { w with tree := t } (k ()) = (.ok y, w') := by
  obtain ⟨⟨⟩, u, hu, h⟩ := of_bind_ok h
  obtain ⟨t, ht, rfl⟩ := of_edit_ok hu
  exact ⟨t, ht, h⟩

@[simp] lemma runOn_isFile (path : String) :
    runOn w (isFile path) = (.ok (w.tree.isFile (w.located path)), w) := rfl

@[simp] lemma runOn_readBytes (path : String) :
    runOn w (readBytes path) = (w.tree.read (w.located path), w) := by
  change runOn w (get >>= fun w' => ask (·.read (w'.located path))) = _
  rw [runOn_bind, runOn_get]
  exact runOn_ask _

lemma runOn_writeBytes (path : String) (b : ByteArray) :
    runOn w (writeBytes path b) = runOn w (edit (·.write (w.located path) b)) := by
  rw [writeBytes, runOn_bind, runOn_get]

lemma runOn_ensureDirectories (path : String) :
    runOn w (ensureDirectories path) = runOn w (edit (·.ensureDirectories (w.located path))) := by
  rw [ensureDirectories, runOn_bind, runOn_get]

lemma of_readBytes_bind_ok {path : String} {k : ByteArray → Act α} {y : α} {w' : World}
    (h : runOn w (readBytes path >>= k) = (.ok y, w')) :
    ∃ b, w.tree.read (w.located path) = .ok b ∧ runOn w (k b) = (.ok y, w') := by
  obtain ⟨b, u, hb, h⟩ := of_bind_ok h
  rw [runOn_readBytes] at hb
  obtain ⟨hread, rfl⟩ := Prod.mk.inj hb
  exact ⟨b, hread, h⟩

lemma of_ensureDirectories_bind_ok {path : String} {k : Unit → Act α} {y : α} {w' : World}
    (h : runOn w (ensureDirectories path >>= k) = (.ok y, w')) :
    ∃ t, w.tree.ensureDirectories (w.located path) = .ok t ∧ runOn { w with tree := t } (k ()) = (.ok y, w') := by
  obtain ⟨⟨⟩, u, hu, h⟩ := of_bind_ok h
  rw [runOn_ensureDirectories] at hu
  obtain ⟨t, ht, rfl⟩ := of_edit_ok hu
  exact ⟨t, ht, h⟩

@[simp] lemma runOn_sleep (seconds : Float) :
    runOn w (sleep seconds) = (.ok (), (w.note (.sleep seconds)).elapse seconds) := by
  rw [sleep, runOn_modify]

@[simp] lemma runOn_draw : runOn w draw = (.ok (w.draws + 1), { w with draws := w.draws + 1 }) := rfl

@[simp] lemma runOn_note (e : Event) : runOn w (note e) = (.ok (), w.note e) := rfl

/-- The text that is read from bytes, with every line break as a line feed, or the fault that they are no text. -/
def textOf (c : ByteArray) : Except Fault String :=
  match Text.decode? c with
  | some s => .ok (String.ofList (Text.unifyBreaks s.toList))
  | none => .error (.encoding c)

lemma textOf_encoding {c : ByteArray} (h : textOf c = .error f) : f = .encoding c := by
  unfold textOf at h
  split at h
  · cases h
  · exact (Except.error.inj h).symm

/-- A file is read as its bytes are, whatever they are. -/
lemma runOn_readText_bytes {path : String} {c : ByteArray} (h : w.tree.read (w.located path) = .ok c) :
    runOn w (readText path) = (textOf c, w) := by
  have hbytes : runOn w (readBytes path) = (.ok c, w) := by rw [runOn_readBytes, h]
  rw [readText, readExactText, textOf]
  simp only [bind_assoc]
  rw [runOn_bind_ok _ hbytes]
  rcases Text.decode? c with _ | s
  · rfl
  · rfl

/-- A file is read as its text is, if its bytes are one. -/
lemma runOn_ofResult_readText {path : String} {c : ByteArray} (g : String → Except Fault α)
    (h : w.tree.read (w.located path) = .ok c) : runOn w (do ofResult (g (← readText path))) = (textOf c >>= g, w) := by
  rw [runOn_bind, runOn_readText_bytes h]
  rcases textOf c with f | s
  · rfl
  · exact runOn_ofResult _

/-- A text with line feeds only is read as it was written. -/
lemma runOn_readText {path s : String} (hs : '\r' ∉ s.toList) (h : w.tree.read (w.located path) = .ok (Text.encode s)) :
    runOn w (readText path) = (.ok s, w) := by
  rw [runOn_readText_bytes h, textOf, Text.decode?_encode]
  dsimp only
  rw [Text.unifyBreaks_eq_self hs, String.ofList_toList]

end

end Act

end Ratchet
