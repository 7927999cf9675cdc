import Ratchet.Proofs.Settings.Surfaces
import Ratchet.Proofs.Spared

/-!
Configuration files with any bytes.

Whoever loads settings reckons with settings or with a fault of the configuration. The bytes of the configuration file go
through four hands on the way: they are decoded, read as a document, taken for a mapping, and handed over by name. What
breaks the rules of the format is a fault of the configuration, and so is a document that is no mapping, and a setting that
is not acceptable. Bytes that are no text are not, nor is a mapping with a key that is no name (`Wild`). And a document that
counts as absent is passed over like an empty one, whatever it is.
-/

namespace Ratchet.Settings

open Act

variable {defaults : Defaults} {w : World} {es : List (Datum × Datum)} {said : List (String × Datum)}
  {project path : String} {config : Option String} {c : ByteArray} {d : Datum} {f : Fault}

/-- What callers reckon with: a value, or a fault of the configuration. -/
def Contained {α : Type} (r : Except Fault α) : Prop := ∀ f, r = .error f → f.kind = .config

/-- The bytes of the configuration file of a project, if it has one. -/
def configBytes? (w : World) (project : String) (config : Option String) : Option ByteArray :=
  (w.tree.read (w.located (configPath project config))).toOption

/-- Whether a document is a mapping. -/
def isMapping : Datum → Bool
  | .map _ => true
  | _ => false

/-- The document that bytes hold, or why it cannot be read; nothing if the bytes are no text. -/
def document? (c : ByteArray) : Option (Except Yaml.ReadError Datum) := (textOf c).toOption.map Yaml.read

lemma exists_of_isMapping (h : isMapping d = true) : ∃ es, d = .map es := by
  cases d with
  | map es => exact ⟨es, rfl⟩
  | _ => exact Bool.noConfusion h

/-- Whether the bytes of a configuration file stop the loading with a fault that is none of the configuration: they are no
text, or the reader of documents fails for another reason than the format, or a key of the mapping is no name. -/
inductive Wild (c : ByteArray) : Prop
  | noText (h : document? c = none)
  | tooDeep (h : document? c = some (.error .tooDeep))
  | noValue {why : Yaml.NoValue} (h : document? c = some (.error (.noValue why)))
  | noName {es : List (Datum × Datum)} {x : Datum × Datum} (h : document? c = some (.ok (.map es))) (hx : x ∈ es)
    (hname : isName x.1 = false)

/-! ### Keys -/

/-- Whether all keys of a configuration are names. -/
def Named (es : List (Datum × Datum)) : Prop := ∀ x ∈ es, isName x.1 = true

/-- A setting that is put over a configuration leaves the keys as they are, and its own is a name. -/
lemma named_putEntry (k : String) : Named (Datum.putEntry (.text k) d es) ↔ Named es := by
  induction es with
  | nil => simp [Named, Datum.putEntry, isName]
  | cons x es ih =>
    rw [Datum.putEntry]
    split
    · simp [Named]
    · simp only [Named, List.forall_mem_cons] at ih ⊢
      rw [ih]

lemma named_overlaid : Named (overlaid said es) ↔ Named es := by
  rw [overlaid]
  induction said.filter (fun x => speaks x.2) generalizing es with
  | nil => rfl
  | cons x said ih => rw [List.foldl_cons, ih, named_putEntry]

lemma named_entriesFor {here : String} : Named (entriesFor here project said es) ↔ Named es := by
  rw [entriesFor, named_putEntry, named_overlaid]

/-- A configuration is checked exactly when its keys are names, and then what is wrong with it is a fault of its own. -/
lemma contained_ofConfig : Contained (ofConfig defaults es) ↔ Named es := by
  unfold ofConfig
  split
  · rename_i h
    refine iff_of_true (fun f hf => ?_) fun x hx => List.all_eq_true.1 h x hx
    split at hf
    · cases hf
    · rw [← Except.error.inj hf]
  · rename_i h
    exact iff_of_false (fun hc => absurd (hc _ rfl) (by decide)) fun hn => h (List.all_eq_true.2 hn)

/-! ### The file -/

/-- What the bytes of a configuration file come to. -/
def held (path : String) (c : ByteArray) : Except Fault (List (Datum × Datum)) := textOf c >>= entriesOf path

lemma held_noText (path : String) (h : document? c = none) : held path c = .error (.encoding c) := by
  rw [document?] at h
  rcases ht : textOf c with f | s
  · rw [held, ht, textOf_encoding ht]
    rfl
  · rw [ht] at h
    exact absurd h (Option.some_ne_none _)

/-- What a text comes to depends on the document that it holds. -/
lemma held_text (path : String) {r : Except Yaml.ReadError Datum} (h : document? c = some r) :
    ∃ s, Yaml.read s = r ∧ held path c = entriesOf path s := by
  rw [document?] at h
  rcases ht : textOf c with f | s
  · rw [ht] at h
    exact absurd h nofun
  · rw [ht] at h
    exact ⟨s, Option.some.inj h, by rw [held, ht]; rfl⟩

lemma held_map (path : String) (h : document? c = some (.ok (.map es))) : held path c = .ok es := by
  obtain ⟨s, hs, hheld⟩ := held_text path h
  rw [hheld, entriesOf, hs]

/-- A document that is no mapping is a fault of the configuration, unless it counts as absent. -/
lemma held_noMap (path : String) (h : document? c = some (.ok d)) (hd : isMapping d = false) : held path c =
    if d.isVacant then .ok [] else .error (.plain .config (path ++ " must contain a mapping at the top level")) := by
  obtain ⟨s, hs, hheld⟩ := held_text path h
  rw [hheld, entriesOf, hs]
  cases d with
  | map es => exact Bool.noConfusion hd
  | _ => rfl

lemma wild_map_iff (h : document? c = some (.ok (.map es))) : Wild c ↔ ¬ Named es := by
  refine ⟨fun hwild hnamed => ?_, fun hnamed => ?_⟩
  · rcases hwild with h' | h' | h' | ⟨h', hx, hname⟩
    · exact absurd (h.symm.trans h') nofun
    · exact absurd (h.symm.trans h') nofun
    · exact absurd (h.symm.trans h') nofun
    · cases h.symm.trans h'
      exact absurd (hnamed _ hx) (by rw [hname]; decide)
  · obtain ⟨x, hx⟩ := not_forall.1 hnamed
    obtain ⟨hx, hname⟩ := Classical.not_imp.1 hx
    exact .noName h hx (Bool.eq_false_iff.2 hname)

/-- A text that breaks the rules of the format is no `Wild` one, and neither is one that holds something else than a
mapping. -/
lemma not_wild {r : Except Yaml.ReadError Datum} (h : document? c = some r) (hdeep : r ≠ .error .tooDeep)
    (hvalue : ∀ why, r ≠ .error (.noValue why)) (hmap : ∀ es, r ≠ .ok (.map es)) : ¬ Wild c := by
  rintro (h' | h' | h' | ⟨h', -, -⟩)
  · exact absurd (h.symm.trans h') nofun
  · exact hdeep (Option.some.inj (h.symm.trans h'))
  · exact hvalue _ (Option.some.inj (h.symm.trans h'))
  · exact hmap _ (Option.some.inj (h.symm.trans h'))

lemma faultOf_kind (why : Yaml.NoValue) : (faultOf why).kind.isSystem = false ∧ (faultOf why).kind ≠ .config := by
  have hkey : FaultKind.isSystem (.other "KeyError") = false := by decide
  have hlarge : FaultKind.isSystem (.other "OverflowError") = false := by decide
  cases why with
  | unreadable message => exact ⟨rfl, nofun⟩
  | unknownWord word => exact ⟨hkey, nofun⟩
  | tooLarge message => exact ⟨hlarge, nofun⟩
  | empty | undated | notText => exact ⟨by decide, nofun⟩

/-- Bytes that are no `Wild` ones are a mapping by names or a fault of the configuration, and the others are neither. The
system is never to blame for what a file holds. -/
lemma held_cases (path : String) (c : ByteArray) :
    (∃ es, held path c = .ok es ∧ (Wild c ↔ ¬ Named es)) ∨
      ∃ f, held path c = .error f ∧ f.kind.isSystem = false ∧ (Wild c ↔ f.kind ≠ .config) := by
  rcases h : document? c with _ | e | d
  · have hencoding : FaultKind.isSystem (.other "UnicodeDecodeError") = false := by decide
    exact .inr ⟨_, held_noText path h, hencoding, iff_of_true (.noText h) nofun⟩
  · obtain ⟨s, hs, hheld⟩ := held_text path h
    rw [entriesOf, hs] at hheld
    cases e with
    | malformed => exact .inr ⟨_, hheld, rfl, iff_of_false (not_wild h nofun nofun nofun) (not_not.2 rfl)⟩
    | tooDeep => exact .inr ⟨_, hheld, by decide, iff_of_true (.tooDeep h) (by decide)⟩
    | noValue why =>
      obtain ⟨hsystem, hkind⟩ := faultOf_kind why
      exact .inr ⟨_, hheld, hsystem, iff_of_true (.noValue h) hkind⟩
  · cases hmap : isMapping d with
    | true =>
      obtain ⟨es, rfl⟩ := exists_of_isMapping hmap
      exact .inl ⟨es, held_map path h, wild_map_iff h⟩
    | false =>
      have hwild : ¬ Wild c := not_wild h nofun nofun fun es he => by
        rw [Except.ok.inj he] at hmap
        exact Bool.noConfusion hmap
      have hheld := held_noMap path h hmap
      split at hheld
      · exact .inl ⟨_, hheld, iff_of_false hwild (not_not.2 fun x hx => absurd hx List.not_mem_nil)⟩
      · exact .inr ⟨_, hheld, rfl, iff_of_false hwild (not_not.2 rfl)⟩

/-! ### Loading -/

/-- What the configuration of a project says: what its file holds, or nothing if there is none. -/
def configured (w : World) (project : String) (config : Option String) : Except Fault (List (Datum × Datum)) :=
  match configBytes? w project config with
  | none => .ok []
  | some c => held (configPath project config) c

lemma runOn_readConfig : runOn w (readConfig project config) = (configured w project config, w) := by
  rw [readConfig, runOn_bind_ok _ (runOn_isFile _), runOn_ite, configured, configBytes?]
  split
  · rename_i hfile
    obtain ⟨c, hread, -⟩ := Tree.read_of_isFile hfile
    rw [hread, runOn_told, runOn_ofResult_readText _ hread]
    refine Prod.ext ?_ rfl
    change (held (configPath project config) c).mapError _ = held (configPath project config) c
    rcases held_cases (configPath project config) c with ⟨es, h, -⟩ | ⟨f, h, hsystem, -⟩
    · rw [h]
      rfl
    · rw [h, Except.mapError, if_neg (by simp [hsystem])]
  · rename_i hfile
    rcases hread : w.tree.read (w.located (configPath project config)) with f | c
    · rfl
    · obtain ⟨-, p, hstat⟩ := Tree.read_eq_ok.1 hread
      exact absurd (Tree.isFile_iff.2 ⟨p, c, hstat⟩) hfile

lemma looks_load : Looks (load defaults project config said) := by
  refine .bind (.look _) fun there => .ite _ (.bind (fun w => ?_) fun es => ?_) (.throw _)
  · rw [runOn_readConfig]
  · exact .bind (.look fun w => w) fun w => .ofResult _

/-- Settings are read from what the configuration says, with what the caller says over it. -/
lemma runOn_load (hdir : w.tree.isDirectory (w.located project) = true) :
    (runOn w (load defaults project config said)).1 =
      (configured w project config >>= fun es => ofConfig defaults (entriesFor w.here project said es)) := by
  have hlook : runOn w (Act.isDirectory project) = (.ok true, w) := by rw [Act.isDirectory, runOn_look, hdir]
  rw [load_eq, runOn_bind_ok _ hlook, if_pos rfl, runOn_bind, runOn_readConfig]
  generalize configured w project config = r
  rcases r with f | es
  · rfl
  · dsimp only
    rw [runOn_bind_ok _ runOn_get, runOn_ofResult]
    rfl

lemma runOn_load_missing (hdir : w.tree.isDirectory (w.located project) = false) :
    (runOn w (load defaults project config said)).1 =
      .error (.plain .config ("Project path does not exist or is not a directory: " ++ project)) := by
  have hlook : runOn w (Act.isDirectory project) = (.ok false, w) := by rw [Act.isDirectory, runOn_look, hdir]
  rw [load_eq, runOn_bind_ok _ hlook]
  rfl

/-- Loading is contained exactly when the bytes of the file are no `Wild` ones. -/
lemma contained_configured {here : String} : Contained (configured w project config >>= fun es =>
    ofConfig defaults (entriesFor here project said es)) ↔ ∀ c, configBytes? w project config = some c → ¬ Wild c := by
  rw [configured]
  rcases configBytes? w project config with _ | c
  · refine iff_of_true (contained_ofConfig.2 (named_entriesFor.2 ?_)) nofun
    exact fun x hx => absurd hx List.not_mem_nil
  · rcases held_cases (configPath project config) c with ⟨es, h, hwild⟩ | ⟨f, h, -, hwild⟩
    · dsimp only
      rw [h]
      refine Iff.trans (contained_ofConfig.trans named_entriesFor) ?_
      simp [hwild]
    · dsimp only
      rw [h]
      have hf : Contained (.error f : Except Fault Settings) ↔ f.kind = .config :=
        ⟨fun hc => hc f rfl, fun hk g hg => by rw [← Except.error.inj hg, hk]⟩
      refine hf.trans ?_
      simp [hwild]

/-- **Loading settings comes to settings or to a fault of the configuration, unless the file of the project is a `Wild`
one.** A document that is no mapping is refused unless it counts as absent; then the settings are those of a project
without a configuration. -/
theorem load_contained_iff (defaults : Defaults) (project : String) (config : Option String)
    (said : List (String × Datum)) (w : World) :
    (Contained (runOn w (load defaults project config said)).1 ↔
      ¬ (w.tree.isDirectory (w.located project) = true ∧ ∃ c, configBytes? w project config = some c ∧ Wild c)) ∧
    ∀ c d, w.tree.isDirectory (w.located project) = true → configBytes? w project config = some c →
      document? c = some (.ok d) → isMapping d = false → (runOn w (load defaults project config said)).1 =
        if d.isVacant then ofConfig defaults (entriesFor w.here project said [])
        else .error (.plain .config (configPath project config ++ " must contain a mapping at the top level")) := by
  refine ⟨?_, fun c d hdir hc hdoc hd => ?_⟩
  · cases hdir : w.tree.isDirectory (w.located project) with
    | false =>
      rw [runOn_load_missing hdir]
      exact iff_of_true (fun f hf => by rw [← Except.error.inj hf]; rfl) fun h => absurd h.1 nofun
    | true =>
      rw [runOn_load hdir, contained_configured]
      simp
  · rw [runOn_load hdir, configured, hc]
    dsimp only
    rw [held_noMap _ hdoc hd]
    split
    · rfl
    · rfl

/-- A project with a configuration file of these bytes. -/
def projectWith (c : ByteArray) : World where
  tree := (Tree.empty.put ["w"] .directory).put ["w", "remediator.yaml"] (.file c)

/-- What kind of document bytes hold: whether it is a mapping, and whether it counts as absent. -/
def kindOf? (c : ByteArray) : Option (Bool × Bool) :=
  ((document? c).bind Except.toOption).map fun d => (isMapping d, d.isVacant)

lemma of_kindOf? {b : Bool × Bool} (h : kindOf? c = some b) :
    ∃ d, document? c = some (.ok d) ∧ isMapping d = b.1 ∧ d.isVacant = b.2 := by
  obtain ⟨d, hd, rfl⟩ := Option.map_eq_some_iff.1 h
  obtain ⟨r, hr, hd⟩ := Option.bind_eq_some_iff.1 hd
  refine ⟨d, ?_, rfl, rfl⟩
  cases r with
  | error e => exact absurd hd.symm (Option.some_ne_none _)
  | ok d' => rw [hr, Option.some.inj hd]

/-- A list is refused. -/
theorem load_contained_iff_list : kindOf? (Text.encode "- a\n") = some (false, false) ∧
    (runOn (projectWith (Text.encode "- a\n")) (load {} "/w" none [])).1 =
      .error (.plain .config "/w/remediator.yaml must contain a mapping at the top level") := by
  have hkind : kindOf? (Text.encode "- a\n") = some (false, false) := by decide +kernel
  have hbytes : configBytes? (projectWith (Text.encode "- a\n")) "/w" none = some (Text.encode "- a\n") := by
    decide
  have hdir : (projectWith (Text.encode "- a\n")).tree.isDirectory "/w" = true := by decide
  obtain ⟨d, hdoc, hmap, hvacant⟩ := of_kindOf? hkind
  obtain ⟨-, hrefused⟩ := load_contained_iff {} "/w" none [] (projectWith (Text.encode "- a\n"))
  refine ⟨hkind, (hrefused _ d hdir hbytes hdoc hmap).trans (if_neg ?_)⟩
  rw [hvacant]
  decide

/-- Bytes that are no text stop the loading with another fault, and a list without elements is passed over. -/
theorem not_contained_bytes :
    ¬ Contained (runOn (projectWith ⟨#[0xff]⟩) (load {} "/w" none [])).1 ∧
      kindOf? (Text.encode "[]\n") = some (false, true) ∧ document? (Text.encode "[]\n") ≠ some (.ok .null) ∧
        ∃ s, (runOn (projectWith (Text.encode "[]\n")) (load {} "/w" none [])).1 = .ok s := by
  refine ⟨fun h => ?_, by decide +kernel, fun h => ?_, ?_⟩
  · have hbytes : configBytes? (projectWith ⟨#[0xff]⟩) "/w" none = some ⟨#[0xff]⟩ := by decide
    have hnone : (document? ⟨#[0xff]⟩).isNone = true := by decide
    rw [runOn_load (by decide), contained_configured] at h
    exact h _ hbytes (.noText (Option.isNone_iff_eq_none.1 hnone))
  · have hspeaks : (((document? (Text.encode "[]\n")).bind Except.toOption).map speaks) = some true := by decide +kernel
    rw [h] at hspeaks
    exact absurd hspeaks (by decide)
  · have h : (runOn (projectWith (Text.encode "[]\n")) (load {} "/w" none [])).1.toOption.isSome = true := by
      decide +kernel
    obtain ⟨s, hs⟩ := Option.isSome_iff_exists.1 h
    exact ⟨s, ok_of_toOption hs⟩

end Ratchet.Settings
