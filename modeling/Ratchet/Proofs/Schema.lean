import Ratchet.Proofs.Json
import Ratchet.Schema

/-!
Reading what was written down, and reading what was put over something else.

A value of known shape is read from the fields of a document one by one. Each field is found by its key alone, so what is
read depends on a document only through the keys that the shape knows.
-/

namespace Ratchet

namespace Datum

variable {k : Datum} {key name : String} {v : Datum} {es : List (Datum × Datum)}

attribute [local simp] putEntry entry?

/-- Only the text itself is the same key as a text. -/
lemma eq_of_sameKey (h : sameKey k (.text key) = true) : k = .text key := by
  cases k with
  | text s => exact congrArg _ (by simpa [Json.sameKey_text] using h)
  | float x =>
    simp only [sameKey, number?] at h
    rcases hx : Number.whole? x with _ | n <;> simp [hx] at h
  | _ => exact absurd h nofun

/-- The value of a key that was just set. -/
lemma entry?_putEntry (key : String) (v : Datum) (es : List (Datum × Datum)) :
    entry? key (putEntry (.text key) v es) = some v := by
  induction es with
  | nil => simp
  | cons x es ih =>
    obtain ⟨k, u⟩ := x
    rw [putEntry]
    split
    · rename_i hk
      obtain rfl := eq_of_sameKey hk
      simp
    · rename_i hk
      cases k with
      | text s =>
        rw [Json.sameKey_text] at hk
        rwa [ entry?, if_neg hk]
      | _ => exact ih

/-- The value of any other key. -/
lemma entry?_putEntry_ne (h : name ≠ key) : entry? name (putEntry (.text key) v es) = entry? name es := by
  have hkey : (key == name) = false := beq_false_of_ne h.symm
  induction es with
  | nil => simp [hkey]
  | cons x es ih =>
    obtain ⟨k, u⟩ := x
    rw [putEntry]
    split
    · rename_i hk
      obtain rfl := eq_of_sameKey hk
      simp [hkey]
    · cases k with
      | text s => rw [ entry?, entry?, ih]
      | _ => exact ih

end Datum

namespace Schema

variable {α β : Type} {es es' : List (Datum × Datum)} {name : String} {d : Datum} {r : Reader α} {x : α}

/-- A value that was put together has its parts. -/
lemma Checked.of_seq_ok {f : Checked (α → β)} {x : Checked α} {y : β} (h : f.apply x = .ok y) :
    ∃ g z, f = .ok g ∧ x = .ok z ∧ y = g z := by
  rcases f with g | is
  · rcases x with z | js
    · exact ⟨g, z, rfl, rfl, (Checked.ok.inj h).symm⟩
    · exact absurd h nofun
  · rcases x with z | js <;> exact absurd h nofun

/-! ### Fields -/

lemma required_ok (he : Datum.entry? name es = some d) (hd : r d = .ok x) : required es name r = .ok x := by
  rw [required, he]
  dsimp only
  rw [hd]
  rfl

lemma field_ok {absent : α} (he : Datum.entry? name es = some d) (hd : r d = .ok x) :
    field es name absent r = .ok x := by
  rw [field, he]
  dsimp only
  rw [hd]
  rfl

lemma field_absent {absent : α} (he : Datum.entry? name es = none) : field es name absent r = .ok absent := by
  rw [field, he]

lemma required_congr (h : Datum.entry? name es = Datum.entry? name es') : required es name r = required es' name r := by
  rw [required, required, h]

lemma field_congr {absent : α} (h : Datum.entry? name es = Datum.entry? name es') :
    field es name absent r = field es' name absent r := by
  rw [field, field, h]

/-! ### Lists and mappings -/

/-- The items of a list are read if every one of them is. -/
lemma list_map {f : α → Datum} {xs : List α} (h : ∀ x ∈ xs, r (f x) = .ok x) : list r (.list (xs.map f)) = .ok xs := by
  have hitems : ∀ i, itemsFrom r i (xs.map f) = .ok xs := by
    induction xs with
    | nil => exact fun _ => rfl
    | cons x xs ih =>
      intro i
      rw [List.map_cons, itemsFrom, ih (fun y hy => h y (List.mem_cons_of_mem x hy)), h x List.mem_cons_self]
      rfl
  exact hitems 0

/-- The entries of a mapping are read if every value is. -/
lemma mapping_map {f : α → Datum} {xs : List (String × α)} (h : ∀ x ∈ xs, r (f x.2) = .ok x.2) :
    mapping r (Datum.ofFields (xs.map fun (k, v) => (k, f v))) = .ok xs := by
  have hentries : entriesOf r (Json.entries (xs.map fun (k, v) => (k, f v))) = .ok xs := by
    induction xs with
    | nil => rfl
    | cons x xs ih =>
      obtain ⟨k, v⟩ := x
      rw [List.map_cons, Json.entries, List.map_cons, entriesOf, ← Json.entries,
        ih (fun y hy => h y (List.mem_cons_of_mem _ hy)), h (k, v) List.mem_cons_self]
      rfl
  exact hentries

lemma list_texts (xs : List String) : list text (Datum.ofTexts xs) = .ok xs := list_map fun _ _ => rfl

lemma mapping_texts (xs : List (String × String)) :
    mapping text (Datum.ofFields (xs.map fun (k, v) => (k, .text v))) = .ok xs := mapping_map fun _ _ => rfl

end Schema

end Ratchet
