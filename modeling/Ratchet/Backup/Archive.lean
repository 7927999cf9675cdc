import Ratchet.Backup
import Ratchet.Digest
import Ratchet.Json.Reader
import Ratchet.Json.Writer
import Ratchet.Workspace

/-!
The archive of a workspace's backups.

Each backup is a directory of the archive with a manifest and the archived files. It is put together
in a staging directory, which is moved to its place only when everything in it is complete, so that a
backup that fails leaves nothing behind. Before a backup is restored, all of it is checked against its
manifest. The names of staging directories start with a dot, and such names are never listed.
-/

namespace Ratchet

/-- What a run asks of the store of its backups. -/
structure Backups where
  /-- Makes the store ready. -/
  ensure : Act Unit
  /-- Backs up the current bytes of files. -/
  create (files : List String) (description : String) : Act Backup
  /-- Writes the files of a backup back. -/
  restore (name : String) : Act Backup

/-- An archive and the workspace whose files it keeps. -/
structure Archive where
  root : String
  workspace : String
  deriving DecidableEq, Repr

namespace Archive

/-- The archive in a directory. -/
def «at» (here root workspace : String) : Archive := ⟨Path.absolute here root, Path.absolute here workspace⟩

/-- The name of a manifest. -/
def manifestName : String := "manifest.json"

/-- The name of the directory of archived files. -/
def filesName : String := "files"

/-- What the name of a staging directory starts with. -/
def stagingMark : String := ".staging-"

/-- Makes the directory of the archive, unless it is there. -/
def ensure (a : Archive) : Act Unit :=
  Act.told FaultKind.isSystem (.wrap .backup ("Cannot create backup root " ++ a.root))
    (Act.ensureDirectories a.root)

/-- The directory of a backup. Names that could lead out of the archive, or into its staging
directories, are names of no backup. -/
def directory (a : Archive) (name : String) : Act String :=
  if name.isEmpty || name.toList.any (fun c => c == '/' || c == '\\') || name.toList.head? == some '.' then
    throw (.plain .backupNotFound ("Invalid backup id: " ++ Text.quoted name))
  else return Path.join a.root name

/-! ## Reading -/

/-- The backup that a manifest describes. -/
def ofManifest (dir s : String) : Except Fault Backup :=
  match Json.read s with
  | .error .malformed => .error .json
  | .error (.longNumber n) => .error (.value (Number.longText n))
  | .error .tooDeep => .error .tooDeep
  | .ok (.map es) =>
    match Backup.ofEntries (Datum.putEntry (.text "backup_path") (.text dir) es) with
    | .ok b => .ok b
    | .flawed issues => .error (.validation issues)
  | .ok _ => .error .badType

/-- Reads the manifest in a backup's directory. -/
def readManifest (dir : String) : Act Backup := do
  Act.ofResult (ofManifest dir (← Act.readText (Path.join dir manifestName)))

/-- Whether a fault says that a manifest cannot be read. -/
def isUnreadable (k : FaultKind) : Bool := k.isSystem || k.isValue

/-- The fault of a manifest that cannot be read. -/
def unreadable (name : String) (f : Fault) : Fault :=
  let words := "Unreadable manifest for " ++ name
  if f.kind.isSystem then .wrap .backupIntegrity words f
  else { kind := .backupIntegrity, message := words, document := f.document }

/-- The backup with a name. -/
def find (a : Archive) (name : String) : Act Backup := do
  let dir ← a.directory name
  if ← Act.isFile (Path.join dir manifestName) then
    Act.told isUnreadable (unreadable name) (readManifest dir)
  else throw (.plain .backupNotFound ("No backup with id " ++ name))

/-- The backups in directories of the archive; those that cannot be read are left out. -/
def readAll (a : Archive) : List String → Act (List Backup)
  | [] => return []
  | n :: ns => do
    let dir := Path.join a.root n
    if n.toList.head? != some '.' && (← Act.isFile (Path.join dir manifestName)) then
      match ← Act.outcome (readManifest dir) with
      | .ok b => return b :: (← a.readAll ns)
      | .error f => if isUnreadable f.kind then a.readAll ns else throw f
    else a.readAll ns

/-- All backups in the order of their creation. -/
def list (a : Archive) : Act (List Backup) := do
  let names ← Act.look fun w =>
    match w.tree.stat a.root with
    | .ok (p, .directory) => w.tree.namesAt p
    | _ => []
  match Backup.inOrder? (← a.readAll names) with
  | some bs => return bs
  | none => throw .badType

/-- What is wrong with the archived files of a backup. -/
def problems (b : Backup) (dir : String) : List String → Act (List String)
  | [] => return []
  | f :: fs => do
    let path := Path.join dir f
    let found ←
      if ← Act.isFile path then
        let recorded := (b.digests.lookup f).getD ""
        if !recorded.isEmpty && Digest.sha256 (← Act.readBytes path) != recorded then
          pure ["hash mismatch: " ++ f]
        else pure []
      else pure ["missing: " ++ f]
    return found ++ (← problems b dir fs)

/-- Checks a backup against its manifest and lists what is wrong. -/
def verify (a : Archive) (name : String) : Act (List String) := do
  let b ← a.find name
  problems b (Path.join b.path filesName) b.files

/-! ## Creating -/

/-- The files that are to be archived, seen from the workspace, each once. -/
def wanted (a : Archive) (here : String) (files : List String) : List String :=
  (files.foldl (fun seen raw =>
    let f := Path.clean here a.workspace raw
    if f.isEmpty || seen.contains f then seen else f :: seen) []).reverse

/-- Copies files into a directory and gives their digests. -/
def copyIn (a : Archive) (dir : String) : List String → Act (List (String × String))
  | [] => return []
  | f :: fs => do
    let here := (← get).here
    let source ← Act.ofResult (Workspace.resolve here a.workspace f)
    let target ← Act.ofResult (Workspace.resolve here dir f)
    Act.ensureDirectories (Path.parent target)
    Act.edit (·.copy source target)
    let digest := Digest.sha256 (← Act.readBytes target)
    return (f, digest) :: (← a.copyIn dir fs)

/-- The place of the next backup in the order of creation. -/
def nextSequence (a : Archive) : Act Int := do
  return ((← a.list).getLast?.map (·.sequence + 1)).getD 1

/-- The text of a backup's manifest, unless the backup's place in the order is too long a number. -/
def manifestText (b : Backup) : Except Fault String :=
  if Number.isWritable b.sequence then .ok (Json.write b.manifest) else .error (.value Number.unwritableText)

/-- Puts a backup together in its staging directory and moves it to its place. -/
def assemble (a : Archive) (now : Instant) (name description : String) (files : List String) : Act Backup := do
  let staging := Path.join a.root (stagingMark ++ name)
  let place := Path.join a.root name
  let dir := Path.join staging filesName
  Act.edit (·.newDirectories dir)
  let digests ← a.copyIn dir files
  let b : Backup := ⟨name, now, description, files, place, ← a.nextSequence, digests⟩
  Act.writeText (Path.join staging manifestName) (← Act.ofResult (manifestText b))
  Act.edit (·.rename staging place)
  return b

/-- Removes a directory, if that can be done. -/
def discard (dir : String) : Act Unit := do
  let _ ← Act.outcome (Act.edit (·.removeAll dir))

/-- The name of a backup. -/
def nameOf (now : Instant) (drawn : Nat) : String :=
  "backup-" ++ now.stamp ++ "-" ++ String.ofList (Text.hexPadded 8 drawn)

/-- Archives the current bytes of files. -/
def create (a : Archive) (files : List String) (description : String) : Act Backup := do
  a.ensure
  let w ← get
  let now := w.now
  let name := nameOf now (← Act.draw)
  match ← Act.outcome (a.assemble now name description (a.wanted w.here files)) with
  | .ok b => return b
  | .error f =>
    if f.kind.isSystem || f.kind.isValue then
      discard (Path.join a.root (stagingMark ++ name))
      throw (.wrap .backup "Backup failed" f)
    else throw f

/-! ## Restoring -/

/-- Copies archived files back to where they came from. -/
def copyOut (a : Archive) (dir : String) : List String → Act Unit
  | [] => return
  | f :: fs => do
    let target ← Act.ofResult (Workspace.resolve (← get).here a.workspace f)
    Act.ensureDirectories (Path.parent target)
    Act.edit (·.copy (Path.join dir f) target)
    a.copyOut dir fs

/-- Writes every archived file of a backup back, after all of them have been checked. -/
def restore (a : Archive) (name : String) : Act Backup := do
  let b ← a.find name
  let wrong ← a.verify name
  unless wrong.isEmpty do
    throw (.plain .backupIntegrity ("Backup " ++ name ++ " is incomplete: " ++ "; ".intercalate wrong))
  Act.told (fun k => k.isSystem || k.isValue) (.wrap .backup ("Restore of " ++ name ++ " failed"))
    (a.copyOut (Path.join b.path filesName) b.files)
  return b

/-- What a run asks of an archive. -/
def operations (a : Archive) : Backups := ⟨a.ensure, a.create, a.restore⟩

/-! ## Pruning -/

/-- Deletes backups and says how many. -/
def deleteAll : List Backup → Act Nat
  | [] => return 0
  | b :: bs => do
    Act.edit (·.removeAll b.path)
    return (← deleteAll bs) + 1

/-- Deletes those of the backups that are older than an instant, as long as that can be told. -/
def deleteOlder (limit : Instant) : List Backup → Act Nat
  | [] => return 0
  | b :: bs => do
    if !b.timestamp.comparable limit then throw .badType
    else if b.timestamp.universal < limit.universal then
      Act.edit (·.removeAll b.path)
      return (← deleteOlder limit bs) + 1
    else deleteOlder limit bs

/-- Deletes the backups that are older than a span, seen from now. -/
def pruneOlder (a : Archive) (span : Int) (now : Option Instant) : Act Nat := do
  let now := now.getD (← get).now
  let limit ← Act.ofResult (Span.before now span)
  deleteOlder limit (← a.list)

/-- Deletes all but the newest backups. -/
def pruneKeep (a : Archive) (keep : Int) : Act Nat := do
  if keep < 0 then throw (.value "keep must be >= 0")
  else
    let bs ← a.list
    deleteAll (bs.take (bs.length - keep.toNat))

/-- Deletes the backups that are older than some days, and then all but the newest ones, as far as
either is asked. -/
def prune (a : Archive) (days : Option Float) (keep : Option Int) : Act Nat := do
  let old ← match days with
    | some x => a.pruneOlder (← Act.ofResult (Span.ofFloat Instant.day x)) none
    | none => pure 0
  let rest ← match keep with
    | some n => a.pruneKeep n
    | none => pure 0
  return old + rest

end Archive

end Ratchet
