import Ratchet.Backup.Archive
import Ratchet.Proofs.Acts
import Ratchet.Proofs.Instant
import Ratchet.Proofs.Schema
import Ratchet.Proofs.Tree

/-!
Manifests.

The manifest of a backup is a document that is read back, in UTF-8 and with line feeds for its line
breaks. So what reads the manifest in a backup's directory finds the backup that was put together there.
-/

namespace Ratchet

namespace Backup

variable {b : Backup}

/-- What makes the manifest of a backup a text that is read back: its place in the order of creation can be written,
and each of its files has one digest. -/
structure Writable (b : Backup) : Prop where
  sequence : Number.isWritable b.sequence = true
  digests : (b.digests.map (·.1)).Nodup

/-- What makes a backup one that is read back from its manifest: its time is one of the calendar in universal time. -/
structure Sound (b : Backup) : Prop extends Writable b where
  inCalendar : Instant.inCalendar b.timestamp.reading = true
  universal : b.timestamp.offset = some 0

lemma Writable.readBack (h : b.Writable) : Json.ReadBack 2 b.manifest := by
  have hkeys : ((b.fields []).map (·.1)) = ["id", "timestamp", "description", "files", "sequence", "hashes"] := rfl
  refine Json.readBack_ofFields (by rw [hkeys]; decide) fun x hx => ?_
  simp only [fields, List.append_nil, List.cons_append, List.nil_append, List.mem_cons, List.not_mem_nil,
    or_false] at hx
  rcases hx with rfl | rfl | rfl | rfl | rfl | rfl
  · exact Json.readBack_text 1 _
  · exact Json.readBack_text 1 _
  · exact Json.readBack_text 1 _
  · refine Json.readBack_list fun y hy => ?_
    obtain ⟨f, -, rfl⟩ := List.mem_map.1 hy
    exact Json.readBack_text 0 f
  · exact Json.readBack_int 1 (of_decide_eq_true h.sequence)
  · refine Json.readBack_ofFields ?_ fun y hy => ?_
    · rw [List.map_map]
      exact h.digests
    · obtain ⟨z, -, rfl⟩ := List.mem_map.1 hy
      exact Json.readBack_text 0 z.2

/-- Everything but the time is read from a manifest as it was written, with the directory that it is found in. -/
lemma ofEntries_manifest (b : Backup) (dir : String) :
    ofEntries (Datum.putEntry (.text "backup_path") (.text dir) (Json.entries (b.fields []))) =
      (fun i => { b with timestamp := i, path := dir }) <$> (Schema.instant (.text b.timestamp.text)).under "timestamp" := by
  rw [Json.putEntry_new (Json.entries_new (by simp [fields]))]
  generalize hes : Json.entries (b.fields []) ++ [(.text "backup_path", .text dir)] = es
  have hid : Schema.required es "id" Schema.text = .ok b.name := Schema.required_ok (by rw [← hes]; rfl) rfl
  have htime : Schema.required es "timestamp" Schema.instant =
      (Schema.instant (.text b.timestamp.text)).under "timestamp" := by
    rw [← hes]
    rfl
  have hdescription : Schema.field es "description" "" Schema.text = .ok b.description :=
    Schema.field_ok (by rw [← hes]; rfl) rfl
  have hfiles : Schema.field es "files" [] (Schema.list Schema.text) = .ok b.files :=
    Schema.field_ok (by rw [← hes]; rfl) (Schema.list_texts b.files)
  have hpath : Schema.field es "backup_path" "" Schema.text = .ok dir := Schema.field_ok (by rw [← hes]; rfl) rfl
  have hsequence : Schema.field es "sequence" 0 Schema.int = .ok b.sequence := Schema.field_ok (by rw [← hes]; rfl) rfl
  have hdigests : Schema.field es "hashes" [] (Schema.mapping Schema.text) = .ok b.digests :=
    Schema.field_ok (by rw [← hes]; rfl) (Schema.mapping_texts b.digests)
  rw [Backup.ofEntries, hid, htime, hdescription, hfiles, hpath, hsequence, hdigests]
  rcases (Schema.instant (.text b.timestamp.text)).under "timestamp" with i | issues
  · rfl
  · rfl

end Backup

namespace Archive

open Act

variable {w : World} {b : Backup} {dir : String}

lemma ofManifest_writable (hb : b.Writable) (dir : String) :
    ofManifest dir (Json.write b.manifest) =
      match (fun i => { b with timestamp := i, path := dir : Backup }) <$>
        (Schema.instant (.text b.timestamp.text)).under "timestamp" with
      | .ok b => .ok b
      | .flawed issues => .error (.validation issues) := by
  rw [ofManifest, Json.read_write hb.readBack (by decide), ← Backup.ofEntries_manifest b dir]
  rcases hread : Backup.ofEntries (Datum.putEntry (.text "backup_path") (.text dir) (Json.entries (b.fields [])))
    with c | issues
  · simp only [Backup.manifest, Datum.ofFields, hread]
  · simp only [Backup.manifest, Datum.ofFields, hread]

/-- A sound backup is read from the text of its manifest. -/
theorem ofManifest_write (hb : b.Sound) (dir : String) :
    ofManifest dir (Json.write b.manifest) = .ok { b with path := dir } := by
  rw [ofManifest_writable hb.toWritable, Schema.instant_text hb.inCalendar hb.universal]
  rfl

/-- What is read from the text of a manifest says the same of the files, whatever the time. -/
lemma ofManifest_files {b' : Backup} (hb : b.Writable) (h : ofManifest dir (Json.write b.manifest) = .ok b') :
    b'.files = b.files ∧ b'.digests = b.digests ∧ b'.path = dir := by
  rw [ofManifest_writable hb] at h
  generalize (Schema.instant (.text b.timestamp.text)).under "timestamp" = r at h
  rcases r with i | issues
  · rw [← Except.ok.inj h]
    exact ⟨rfl, rfl, rfl⟩
  · exact absurd h nofun

end Archive

end Ratchet
