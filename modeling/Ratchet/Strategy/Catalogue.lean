import Ratchet.Text.Search

/-!
The modules whose parts a configuration can name.

Each module has callables and plain values. The modules of the engine itself come first, then those of the
standard library that a strategy is likely to be looked for in.
-/

namespace Ratchet

/-- A module of the catalogue. -/
structure Shelf where
  name : String
  /-- Whether other modules can lie below it. -/
  holdsModules : Bool
  callables : List String
  values : List String
  deriving DecidableEq, Repr

namespace Shelf

/-- A module with its callables and values, each row of names separated by spaces. -/
def shelf (name : String) (holdsModules : Bool) (callables values : List String) : Shelf :=
  let names (rows : List String) : List String :=
    rows.flatMap fun row => (Text.splitAtChar ' ' row.toList).map String.ofList
  ⟨name, holdsModules, names callables, names values⟩

/-- The callables of every module. -/
def commonCallables : List String :=
  ["__class__", "__delattr__", "__dir__", "__eq__", "__format__", "__ge__", "__getattribute__", "__gt__", "__hash__",
    "__init__", "__init_subclass__", "__le__", "__lt__", "__ne__", "__new__", "__reduce__", "__reduce_ex__",
    "__repr__", "__setattr__", "__sizeof__", "__str__", "__subclasshook__"]

/-- The values of every module. -/
def commonValues : List String := ["__dict__", "__doc__", "__loader__", "__name__", "__package__", "__spec__"]

/-- The modules of the engine. -/
def engine : List Shelf := [
  shelf "remediator.agents.checkpoint" false
    ["CheckpointController Iterable Optional SnapshotProvider BackupError RollbackError SnapshotError",
      "Backup BackupManager"]
    ["logger logging"],
  shelf "remediator.agents.orchestrator" false
    ["Orchestrator Callable Optional CheckpointController SnapshotProvider build_snapshot_provider",
      "build_report RemediationSettings BackupError ConfigError RollbackError SnapshotError",
      "ToolchainError ToolchainTimeoutError TransformError TransformTimeoutError ToolchainInvoker",
      "build_invoker Backup Category DiagnosticRecord PhaseResult RunReport CategorizationResult",
      "categorize schedule parse BackupManager ReportWriter publish_report RunContext RunState",
      "TransformRegistry build_registry resolve_within"]
    ["logger os time logging"],
  shelf "remediator.agents.snapshot_providers" false
    ["SnapshotProvider _clean_excludes _in_tree GitSnapshotProvider FileSnapshotProvider",
      "NullSnapshotProvider build_snapshot_provider Iterable Optional Protocol RemediationSettings",
      "SnapshotError normalize_path resolve_within walk_files"]
    ["logger os logging subprocess CHECKPOINT_PREFIX COMMIT_PREFIX"],
  shelf "remediator.agents.validator" false
    ["total_improvement success_rate check_non_regression remaining_by_category determine_status",
      "build_recommendations build_report Counter datetime timezone Optional DiagnosticRecord",
      "PhaseResult RunReport categorize RunContext RunState"]
    ["logger DOMINANT_CATEGORY_SHARE HOTSPOT_FILE_THRESHOLD LONG_RUN_SECONDS logging CATEGORY_NAMES"],
  shelf "remediator.api.backups" false
    ["router ProjectRequest PruneRequest _manager list_backups prune_backups restore_backup timedelta",
      "List Optional APIRouter HTTPException BaseModel Field to_http_exception load_settings",
      "RemediationError Backup BackupManager"]
    ["logger logging"],
  shelf "remediator.api.errors" false
    ["to_http_exception HTTPException BackupIntegrityError BackupNotFoundError ConfigError",
      "RemediationError"]
    ["_STATUS_CODES"],
  shelf "remediator.api.runs" false
    ["router RunRequest RunTracker get_tracker start_run get_status get_report Optional APIRouter",
      "HTTPException Request BaseModel Field Orchestrator to_http_exception load_settings ConfigError",
      "RunReport ReportWriter"]
    ["logger asyncio logging threading"],
  shelf "remediator.cli" false
    ["_settings_or_exit cli run_command analyze_command _backup_manager backups_group",
      "backups_list_command backups_restore_command backups_prune_command serve_command timedelta",
      "Optional Orchestrator load_settings BackupError ConfigError ToolchainError build_invoker",
      "categorize schedule parse BackupManager render_analysis setup_logging"]
    ["logger EXIT_OK EXIT_REMAINING EXIT_SETUP_FAILURE json logging click"],
  shelf "remediator.core.config" false
    ["RemediationSettings read_project_config load_settings Any Optional Union load_dotenv BaseModel",
      "Field ValidationError field_validator ConfigError"]
    ["logger TOOLCHAIN_COMMAND DEFAULT_TIMEOUT_SECONDS TRANSFORM_TIMEOUT_SECONDS",
      "MAX_ITERATIONS_PER_PHASE MAX_ALLOWED_INCREASE PHASE_DELAY_SECONDS BACKUP_DIR REPORT_PATH",
      "ANALYSIS_PATH SNAPSHOT_PROVIDER SANDBOX_IMAGE REPORT_WEBHOOK_URL LOG_DIR PROJECT_CONFIG_FILE",
      "_SNAPSHOT_PROVIDERS os logging yaml"],
  shelf "remediator.core.constants" false
    []
    ["SYNTAX_ERRORS IMPORT_ISSUES TYPE_MISMATCHES MISSING_DECLARATIONS UNUSED_CODE",
      "CONFIGURATION_ISSUES OTHER CATEGORY_NAMES CHECKPOINT_PREFIX COMMIT_PREFIX"],
  shelf "remediator.core.exceptions" false
    ["RemediationError ConfigError ToolchainError ToolchainUnavailableError ToolchainTimeoutError",
      "BackupError BackupNotFoundError BackupIntegrityError SnapshotError RollbackError TransformError",
      "TransformTimeoutError"]
    [],
  shelf "remediator.executor.command_resolver" false
    ["split_command resolve_command Optional Union ConfigError"]
    ["_COMMAND_MAP shlex"],
  shelf "remediator.executor.project_detector" false
    ["_matches detect_project_type Optional"]
    ["SIGNAL_MAP os glob"],
  shelf "remediator.executor.toolchain_invoker" false
    ["ToolchainResult ToolchainInvoker SandboxToolchainInvoker build_invoker dataclass field Optional",
      "Union APIError DockerException ImageNotFound RemediationSettings ToolchainError",
      "ToolchainTimeoutError ToolchainUnavailableError resolve_command split_command",
      "detect_project_type"]
    ["logger _MEMORY_LIMIT _CPU_COUNT os time logging subprocess docker DEFAULT_TIMEOUT_SECONDS"],
  shelf "remediator.models.backup" false
    ["Backup datetime Dict List BaseModel ConfigDict"]
    [],
  shelf "remediator.models.category" false
    ["CategoryDefinition Category BaseModel ConfigDict"]
    [],
  shelf "remediator.models.diagnostic" false
    ["Severity DiagnosticRecord Literal BaseModel ConfigDict Field"]
    [],
  shelf "remediator.models.phase_result" false
    ["PhaseResult List Optional BaseModel"]
    [],
  shelf "remediator.models.run_report" false
    ["RunReport datetime Dict List Optional BaseModel ConfigDict Category PhaseResult"]
    [],
  shelf "remediator.parser.categorizer" false
    ["get_definition classify classify_record severity_for CategorizationResult categorize",
      "calculate_priority build_category schedule most_common_codes dataclass field Category",
      "CategoryDefinition DiagnosticRecord"]
    ["CATALOGUE _BY_NAME _ORDER _CODE_TABLE _SPLIT_CODES _MESSAGE_PATTERNS re SYNTAX_ERRORS",
      "IMPORT_ISSUES TYPE_MISMATCHES MISSING_DECLARATIONS UNUSED_CODE CONFIGURATION_ISSUES OTHER"],
  shelf "remediator.parser.diagnostic_parser" false
    ["parse_line parse count_diagnostics summarize_by_file Counter Optional ValidationError",
      "DiagnosticRecord severity_for normalize_path"]
    ["logger _DIAGNOSTIC_RE _PROJECT_SUFFIX_RE re logging"],
  shelf "remediator.services.backup_service" false
    ["sha256_file _new_backup_id BackupManager datetime timedelta timezone Iterable Optional",
      "BackupError BackupIntegrityError BackupNotFoundError Backup normalize_path resolve_within"]
    ["logger MANIFEST_FILE FILES_DIR _STAGING_PREFIX os json shutil hashlib logging secrets"],
  shelf "remediator.services.report_writer" false
    ["render_analysis ReportWriter publish_report Optional RunReport CategorizationResult",
      "most_common_codes schedule"]
    ["logger os json logging httpx"],
  shelf "remediator.state.run_context" false
    ["RunState RunContext datetime timezone Enum dataclass field Optional RemediationSettings Category",
      "DiagnosticRecord PhaseResult"]
    ["time"],
  shelf "remediator.transforms.registry" false
    ["TransformResult TransformStrategy _hash_files _diagnostic_files CommandStrategy load_strategy",
      "TransformRegistry build_registry dataclass field Any Optional Protocol Union RemediationSettings",
      "ConfigError RemediationError TransformError TransformTimeoutError split_command DiagnosticRecord",
      "sha256_file resolve_within"]
    ["logger os logging importlib subprocess TRANSFORM_TIMEOUT_SECONDS IMPORT_ISSUES UNUSED_CODE"],
  shelf "remediator.transforms.strategies" false
    ["_local_name _split_clause rewrite_import remove_unused_imports Optional DiagnosticRecord",
      "TransformResult resolve_within"]
    ["logger UNUSED_BINDING_CODES UNUSED_DECLARATION_CODES _IMPORT_RE _NAME_RE os re logging"],
  shelf "remediator.utils.logging_config" false
    ["ColoredFormatter setup_logging datetime Optional"]
    ["logging sys os LOG_DIR"],
  shelf "remediator.utils.path_utils" false
    ["normalize_path resolve_within walk_files Iterable Iterator"]
    ["VENDOR_DIRS IGNORED_DIRS os"],
  shelf "remediator" true
    []
    ["agents api cli core executor models parser services state transforms utils"],
  shelf "remediator.agents" true
    []
    ["checkpoint orchestrator snapshot_providers validator"],
  shelf "remediator.api" true
    []
    ["backups errors runs"],
  shelf "remediator.core" true
    []
    ["config constants exceptions"],
  shelf "remediator.executor" true
    []
    ["command_resolver project_detector toolchain_invoker"],
  shelf "remediator.models" true
    []
    ["backup category diagnostic phase_result run_report"],
  shelf "remediator.parser" true
    []
    ["categorizer diagnostic_parser"],
  shelf "remediator.services" true
    []
    ["backup_service report_writer"],
  shelf "remediator.state" true
    []
    ["run_context"],
  shelf "remediator.transforms" true
    []
    ["registry strategies"],
  shelf "remediator.utils" true
    []
    ["logging_config path_utils"]]

/-- The modules of the standard library. -/
def standard : List Shelf := [
  shelf "builtins" false
    ["abs all any ascii bin bool breakpoint bytearray bytes callable chr classmethod compile complex",
      "delattr dict dir divmod enumerate eval exec exit filter float format frozenset getattr globals",
      "hasattr hash help hex id input int isinstance issubclass iter len list locals map max memoryview",
      "min next object oct open ord pow print property quit range repr reversed round set setattr slice",
      "sorted staticmethod str sum super tuple type vars zip BaseException Exception ValueError",
      "TypeError KeyError IndexError OSError RuntimeError AttributeError"]
    ["True False None Ellipsis NotImplemented"],
  shelf "os" false
    ["getcwd remove listdir mkdir makedirs rename unlink system getenv getpid walk stat scandir chdir",
      "rmdir replace urandom cpu_count fspath access chmod kill popen link symlink readlink"]
    ["sep path environ name linesep curdir pardir pathsep altsep extsep devnull sys"],
  shelf "os.path" false
    ["join exists abspath basename dirname isfile isdir isabs islink normpath realpath relpath split",
      "splitext expanduser expandvars getsize getmtime commonpath commonprefix lexists normcase",
      "samefile"]
    ["sep pardir curdir pathsep os sys stat genericpath"],
  shelf "json" true
    ["dumps loads dump load JSONDecodeError JSONDecoder JSONEncoder detect_encoding"]
    ["decoder encoder scanner codecs"],
  shelf "math" false
    ["acos acosh asin asinh atan atan2 atanh cbrt ceil comb copysign cos cosh degrees dist erf erfc",
      "exp exp2 expm1 fabs factorial floor fmod frexp fsum gamma gcd hypot isclose isfinite isinf isnan",
      "isqrt lcm ldexp lgamma log log10 log1p log2 modf nextafter perm pow prod radians remainder sin",
      "sinh sqrt tan tanh trunc ulp"]
    ["e inf nan pi tau"],
  shelf "sys" false
    ["exit getsizeof getrecursionlimit setrecursionlimit intern displayhook exc_info",
      "getdefaultencoding"]
    ["argv path modules version stdin stdout stderr platform executable maxsize byteorder version_info",
      "flags"],
  shelf "re" true
    ["compile match search sub split findall fullmatch finditer escape purge subn Pattern Match error"]
    ["I IGNORECASE M MULTILINE S DOTALL X VERBOSE"],
  shelf "time" false
    ["time sleep monotonic perf_counter strftime strptime gmtime localtime ctime asctime mktime",
      "process_time time_ns struct_time"]
    ["timezone altzone daylight tzname"],
  shelf "shutil" false
    ["copy copy2 copyfile copytree copymode copystat rmtree move which disk_usage make_archive",
      "unpack_archive chown Error"]
    ["os sys stat"],
  shelf "subprocess" false
    ["run Popen call check_call check_output getoutput getstatusoutput CompletedProcess",
      "CalledProcessError TimeoutExpired SubprocessError"]
    ["PIPE STDOUT DEVNULL"],
  shelf "pathlib" false
    ["Path PurePath PosixPath PurePosixPath WindowsPath PureWindowsPath"]
    [],
  shelf "datetime" false
    ["datetime date time timedelta timezone tzinfo"]
    ["MINYEAR MAXYEAR UTC"],
  shelf "collections" true
    ["Counter OrderedDict defaultdict deque namedtuple ChainMap UserDict UserList UserString"]
    ["abc"],
  shelf "string" false
    ["capwords Template Formatter"]
    ["ascii_letters ascii_lowercase ascii_uppercase digits hexdigits octdigits punctuation printable",
      "whitespace"],
  shelf "random" false
    ["random randint choice choices shuffle sample uniform seed randrange gauss getrandbits Random",
      "SystemRandom"]
    [],
  shelf "logging" true
    ["getLogger info debug warning error critical exception log basicConfig Logger Formatter Handler",
      "StreamHandler FileHandler LogRecord"]
    ["DEBUG INFO WARNING ERROR CRITICAL NOTSET root"]]

/-- The name that a module gives itself. -/
def title (s : Shelf) : String := if s.name == "os.path" then "posixpath" else s.name

/-- Whether a module has a callable of a name. -/
def hasCallable (s : Shelf) (name : String) : Bool := s.callables.contains name || commonCallables.contains name

/-- Whether a module has a value of a name. -/
def hasValue (s : Shelf) (name : String) : Bool := s.values.contains name || commonValues.contains name

end Shelf

end Ratchet
