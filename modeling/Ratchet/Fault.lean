import Ratchet.Schema
import Ratchet.Text.Quoted
import Ratchet.Text.Utf8

/-!
What can go wrong.

A fault has a kind, which says who may contain it, and a message. A fault that was found while a
document was read also says what was wrong with the document. Files answer with a system cause that
names the path it is about.
-/

namespace Ratchet

/-- Why the system refuses to touch a file. -/
inductive SystemCause
  | noEntry
  | denied
  | exists
  | notDirectory
  | isDirectory
  | nameTooLong
  | notEmpty
  | invalid
  | sameFile
  deriving DecidableEq, Repr

namespace SystemCause

/-- The system's number for a cause. -/
def number : SystemCause → Nat
  | noEntry => 2
  | denied => 13
  | «exists» => 17
  | notDirectory => 20
  | isDirectory => 21
  | nameTooLong => 36
  | notEmpty => 39
  | invalid => 22
  | sameFile => 0

/-- The system's words for a cause. -/
def words : SystemCause → String
  | noEntry => "No such file or directory"
  | denied => "Permission denied"
  | «exists» => "File exists"
  | notDirectory => "Not a directory"
  | isDirectory => "Is a directory"
  | nameTooLong => "File name too long"
  | notEmpty => "Directory not empty"
  | invalid => "Invalid argument"
  | sameFile => "are the same file"

/-- The label of a cause. -/
def label : SystemCause → String
  | noEntry => "FileNotFoundError"
  | denied => "PermissionError"
  | «exists» => "FileExistsError"
  | notDirectory => "NotADirectoryError"
  | isDirectory => "IsADirectoryError"
  | nameTooLong | notEmpty | invalid => "OSError"
  | sameFile => "SameFileError"

end SystemCause

/-- The kinds of faults. -/
inductive FaultKind
  /-- A fault of the engine that is of no other kind. -/
  | engine
  /-- Invalid or unreadable configuration. -/
  | config
  /-- The toolchain could not produce a usable diagnostic stream. -/
  | toolchain
  /-- The toolchain could not be started at all. -/
  | toolchainUnavailable
  /-- The toolchain exceeded its time limit. -/
  | toolchainTimeout
  /-- A backup could not be created or restored. -/
  | backup
  /-- No backup exists under a name. -/
  | backupNotFound
  /-- An archived file is missing or does not match its recorded digest. -/
  | backupIntegrity
  /-- The snapshot provider failed. -/
  | snapshot
  /-- The tree could not be returned to its state before the attempt. -/
  | rollback
  /-- A transform failed. -/
  | transform
  /-- An external fixer exceeded its time limit. -/
  | transformTimeout
  /-- The system refused an operation on a file. -/
  | system (cause : SystemCause)
  /-- A value is not acceptable. -/
  | value
  /-- Any other failure, with its label. -/
  | other (label : String)
  deriving DecidableEq, Repr

namespace FaultKind

/-- The label of a kind. -/
def label : FaultKind → String
  | engine => "RemediationError"
  | config => "ConfigError"
  | toolchain => "ToolchainError"
  | toolchainUnavailable => "ToolchainUnavailableError"
  | toolchainTimeout => "ToolchainTimeoutError"
  | backup => "BackupError"
  | backupNotFound => "BackupNotFoundError"
  | backupIntegrity => "BackupIntegrityError"
  | snapshot => "SnapshotError"
  | rollback => "RollbackError"
  | transform => "TransformError"
  | transformTimeout => "TransformTimeoutError"
  | system c => c.label
  | value => "ValueError"
  | other l => l

/-- The kinds that the engine itself raises. -/
def engineKinds : List FaultKind :=
  [engine, config, toolchain, toolchainUnavailable, toolchainTimeout, backup, backupNotFound, backupIntegrity,
    snapshot, rollback, transform, transformTimeout]

/-- The kind with a label. -/
def ofLabel (s : String) : FaultKind := ((value :: engineKinds).find? (·.label == s)).getD (other s)

/-- The kinds that a failing toolchain has. -/
def isToolchain : FaultKind → Bool
  | toolchain | toolchainUnavailable | toolchainTimeout => true
  | _ => false

/-- The kinds that a failing backup store has. -/
def isBackup : FaultKind → Bool
  | backup | backupNotFound | backupIntegrity => true
  | _ => false

/-- The kinds that a failing transform has. -/
def isTransform : FaultKind → Bool
  | transform | transformTimeout => true
  | _ => false

/-- The kinds that the engine itself raises. -/
def isEngine (k : FaultKind) : Bool := engineKinds.contains k

/-- The labels of failures to read a text as a value. -/
def valueLabels : List String :=
  ["ValidationError", "UnicodeDecodeError", "JSONDecodeError", "UnicodeEncodeError"]

/-- The labels of failures of the system that have no cause of their own here. -/
def systemLabels : List String :=
  ["OSError", "IOError", "FileNotFoundError", "FileExistsError", "NotADirectoryError",
    "IsADirectoryError", "PermissionError", "TimeoutError", "ConnectionError", "InterruptedError"]

/-- The kinds that the system raises. -/
def isSystem : FaultKind → Bool
  | system _ => true
  | other l => systemLabels.contains l
  | _ => false

/-- The kinds that say that a value is not acceptable. -/
def isValue : FaultKind → Bool
  | value => true
  | other l => valueLabels.contains l
  | _ => false

end FaultKind

/-- What was wrong with a document. -/
inductive DocumentFlaw
  | validation (issues : List Schema.Issue)
  | yaml
  | json
  | encoding
  deriving DecidableEq, Repr

/-- Something that went wrong. -/
structure Fault where
  kind : FaultKind
  message : String
  /-- What was wrong with the document, if the fault comes from one. -/
  document : Option DocumentFlaw := none
  /-- The words for what was wrong with the document. -/
  detail : String := ""
  deriving DecidableEq, Repr

namespace Fault

/-- A fault that has nothing to do with a document. -/
def plain (kind : FaultKind) (message : String) : Fault := { kind, message }

/-- The words of a fault. -/
def text (f : Fault) : String := if f.detail.isEmpty then f.message else f.message ++ ": " ++ f.detail

/-- A value that is not acceptable. -/
def value (message : String) : Fault := plain .value message

/-- The system's refusal to touch a path. -/
def system (cause : SystemCause) (path : String) : Fault :=
  plain (.system cause) ("[Errno " ++ toString cause.number ++ "] " ++ cause.words ++ ": " ++ Text.quoted path)

/-- The system's refusal to move one path to another. -/
def systemPair (cause : SystemCause) (source target : String) : Fault :=
  plain (.system cause) ("[Errno " ++ toString cause.number ++ "] " ++ cause.words ++ ": " ++
    Text.quoted source ++ " -> " ++ Text.quoted target)

/-- A file that would be copied onto itself. -/
def sameFile (source target : String) : Fault :=
  plain (.system .sameFile) (Text.quoted source ++ " and " ++ Text.quoted target ++ " are the same file")

/-- A path that holds the character zero. -/
def zeroInPath : Fault := value "embedded null byte"

/-- A document with fields that are missing or of the wrong kind. -/
def validation (issues : List Schema.Issue) : Fault :=
  { kind := .other "ValidationError", message := "", document := some (.validation issues) }

/-- What is said of bytes that are no text. -/
def encodingMessage (b : ByteArray) : String :=
  match Text.malformed? b with
  | none => ""
  | some m =>
    let place := if m.stop == m.start + 1
      then "byte 0x" ++ String.ofList (Text.hexPadded 2 (b[m.start]?.getD 0).toNat) ++ " in position " ++ toString m.start
      else "bytes in position " ++ toString m.start ++ "-" ++ toString (m.stop - 1)
    "'utf-8' codec can't decode " ++ place ++ ": " ++ m.reason

/-- Bytes that are no text. -/
def encoding (b : ByteArray) : Fault :=
  { kind := .other "UnicodeDecodeError", message := encodingMessage b, document := some .encoding }

/-- A text that is no JSON document. -/
def json : Fault :=
  { kind := .other "JSONDecodeError", message := "", document := some .json }

/-- A value of a type that the operation cannot take. -/
def badType : Fault := plain (.other "TypeError") ""

/-- Values that nest too deeply. -/
def tooDeep : Fault := plain (.other "RecursionError") "maximum recursion depth exceeded"

/-- A number that is out of range. -/
def overflow (message : String) : Fault := plain (.other "OverflowError") message

/-- The same fault told from further out: another kind, with words in front of its own. What was wrong
with a document is told apart, unless the fault has been told from further out before. -/
def wrap (kind : FaultKind) (words : String) (f : Fault) : Fault :=
  if f.document.isSome && !f.kind.isEngine then ⟨kind, words, f.document, f.text⟩
  else plain kind (words ++ ": " ++ f.text)

end Fault

end Ratchet
