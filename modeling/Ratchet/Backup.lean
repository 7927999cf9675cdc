import Ratchet.Schema

/-!
Backups.

A backup is a copy of the bytes that some files of a workspace had at one instant. It is known by an
opaque name, never changes, and is kept until it is pruned. Its manifest says everything about it but
where it is kept.
-/

namespace Ratchet

/-- What is known about a backup. -/
structure Backup where
  name : String
  timestamp : Instant
  description : String := ""
  /-- The archived files, seen from the workspace. -/
  files : List String := []
  /-- The directory that holds the backup. -/
  path : String := ""
  /-- The place of the backup in the order of creation. -/
  sequence : Int := 0
  /-- The digest of each file's archived bytes. -/
  digests : List (String × String) := []
  deriving DecidableEq, Repr

namespace Backup

/-- Reads a backup. -/
def ofEntries (es : List (Datum × Datum)) : Schema.Checked Backup :=
  Backup.mk <$> Schema.required es "id" Schema.text <*> Schema.required es "timestamp" Schema.instant <*>
    Schema.field es "description" "" Schema.text <*>
    Schema.field es "files" [] (Schema.list Schema.text) <*>
    Schema.field es "backup_path" "" Schema.text <*>
    Schema.field es "sequence" 0 Schema.int <*>
    Schema.field es "hashes" [] (Schema.mapping Schema.text)

/-- The fields of the manifest before and after the place where the backup is kept. -/
def fields (b : Backup) (place : List (String × Datum)) : List (String × Datum) :=
  [("id", .text b.name), ("timestamp", .text b.timestamp.text), ("description", .text b.description),
    ("files", Datum.ofTexts b.files)] ++ place ++
  [("sequence", .int b.sequence), ("hashes", Datum.ofFields (b.digests.map fun (f, h) => (f, .text h)))]

/-- A backup as a document. -/
def toDatum (b : Backup) : Datum := Datum.ofFields (b.fields [("backup_path", .text b.path)])

/-- The manifest of a backup. -/
def manifest (b : Backup) : Datum := Datum.ofFields (b.fields [])

/-- Whether the order of two backups cannot be told: they have the same place in the order of
creation, and only one of them tells its offset from universal time. -/
def clash (a b : Backup) : Bool := a.sequence == b.sequence && !a.timestamp.comparable b.timestamp

/-- Whether one backup may stand before another. -/
def before (a b : Backup) : Bool :=
  a.sequence < b.sequence || (a.sequence == b.sequence && a.timestamp.universal ≤ b.timestamp.universal)

/-- Backups in the order of their creation, if it can be told. -/
def inOrder? (bs : List Backup) : Option (List Backup) :=
  if bs.any fun a => bs.any fun b => a.clash b then none else some (bs.mergeSort before)

end Backup

end Ratchet
