import Byssus.Config

/-! Loading configuration: the main file and the drop-in fragments, all or nothing.
The operating system and the TOML parser are what a `LoadEnv` answers. -/
namespace Byssus

inductive IoErrorKind
  | notFound
  | permissionDenied
  | other
  deriving DecidableEq

structure IoError where
  kind : IoErrorKind
  message : String

structure FileMeta where
  uid : ℕ
  mode : ℕ
  isFile : Bool
  isDir : Bool

/-- An opened file: what `metadata` and `read_to_string` return for it. -/
structure OpenFile where
  metadata : Except IoError FileMeta
  content : Except IoError Text

structure LoadEnv where
  canonicalize : PathBuf → Except IoError PathBuf
  /-- Opens a directory; its metadata can then be read. -/
  openDir : PathBuf → Except IoError (Except IoError FileMeta)
  /-- Opens a file of an opened directory. -/
  openFile : PathBuf → PathBuf → Except IoError OpenFile
  /-- The names of the entries of a directory. -/
  readDir : PathBuf → Except IoError (List (Except IoError PathBuf))
  metadata : PathBuf → Except IoError FileMeta
  /-- `toml::from_str`. -/
  parse : Text → Except String RawFile
  /-- `str::escape_debug`. -/
  escapeDebug : Text → String

inductive OwnershipPolicy
  | enforce
  | warn
  deriving DecidableEq

/-- Changes to apply on top of the installed fragments. -/
structure FragmentChanges where
  add : List PathBuf
  remove : List Text

structure LoadOptions where
  mainFile : PathBuf
  mainFileRequired : Bool
  configDir : PathBuf
  configDirRequired : Bool
  ownership : OwnershipPolicy
  trustedUid : ℕ
  checkPaths : Bool
  fragmentChanges : FragmentChanges

structure Loaded where
  config : Config
  warnings : Issues

def LoadOptions.severity (options : LoadOptions) : Severity :=
  match options.ownership with
  | .enforce => .error
  | .warn => .warning

/-- `{:04o}`. -/
def octal (n : ℕ) : String :=
  let digits := Nat.toDigits 8 n
  String.ofList (List.replicate (4-digits.length) '0'++digits)

/-- `check_owner_and_mode`. -/
def checkOwnerAndMode (path : PathBuf) (options : LoadOptions) (what : String) (info : FileMeta) :
    Issues :=
  (if info.uid ≠ options.trustedUid then
    [⟨options.severity,some path,none,what ++ " is owned by uid " ++ toString info.uid ++
      ", expected uid " ++ toString options.trustedUid⟩]
  else [])++
  if info.mode &&& 0o022 ≠ 0 then
    [⟨options.severity,some path,none,what ++ " is group- or world-writable (mode " ++
      octal (info.mode &&& 0o7777) ++ ")"⟩]
  else []

/-- The end of `read_checked`, where the file is open and its directory was opened. -/
def readOpened (path parent : PathBuf) (options : LoadOptions) (includeParent : Bool)
    (dir : Except IoError FileMeta) (file : OpenFile) : Except IoError (Option Text) × Issues :=
  match file.metadata with
  | .error e => (.error e,[])
  | .ok info =>
    if info.isFile = false then (.error ⟨.other,"not a regular file"⟩,[])
    else
      let issues := checkOwnerAndMode path options "file" info
      if includeParent then
        match dir with
        | .error e => (.error e,issues)
        | .ok dirInfo =>
          (file.content.map some,issues++
            checkOwnerAndMode path options ("containing directory " ++ parent.display) dirInfo)
      else (file.content.map some,issues)

/-- `read_checked`. -/
def readChecked (env : LoadEnv) (path : PathBuf) (options : LoadOptions) (includeParent : Bool) :
    Except IoError (Option Text) × Issues :=
  match env.canonicalize path with
  | .error e => (if e.kind = .notFound then .ok none else .error e,[])
  | .ok resolved =>
    match resolved.parent,resolved.fileName with
    | some parent,some fileName =>
      match env.openDir parent with
      | .error e => (.error e,[])
      | .ok dir =>
        match env.openFile parent fileName with
        | .error e => (if e.kind = .notFound then .ok none else .error e,[])
        | .ok file => readOpened path parent options includeParent dir file
    | _,_ => (.error ⟨.other,"not a file"⟩,[])

def dotToml : List UInt8 := [46,116,111,109,108]

/-- A name that the daemon selects as a fragment. -/
def isFragment (name : List UInt8) : Bool := name.head? ≠ some PathBuf.dot && dotToml.isSuffixOf name

/-- `list_fragments`. -/
def listFragments (env : LoadEnv) (dir : PathBuf) : Except IoError (Option (List PathBuf)) :=
  match env.readDir dir with
  | .error e => if e.kind = .notFound then .ok none else .error e
  | .ok entries =>
    (entries.mapM id).map fun names =>
      some (((names.filter isFragment).insertionSort fun a b => (compare a b).isLE = true).map
        dir.join)

/-- One iteration of `validate_candidates`: the names so far, and the issues. -/
def validateCandidate (acc : List Text × Issues) (path : PathBuf) : List Text × Issues :=
  let name := fileNameOf path
  let ignored := name = [] ∨ name.head? = some '.' ∨ ¬".toml".toList.isSuffixOf name
  let issues := acc.2++
    (if ignored then [errorIssue (some path) none
      "a drop-in fragment must be named <name>.toml and must not begin with '.'; otherwise the daemon ignores it"]
    else [])++
    if name ∈ acc.1 then [errorIssue (some path) none
      ("more than one candidate is named '" ++ String.ofList name ++ "'")]
    else []
  (acc.1++[name],issues)

/-- `validate_candidates`. -/
def validateCandidates (changes : FragmentChanges) : List Text × Issues :=
  changes.add.foldl validateCandidate ([],[])

/-- `check_ownership`. -/
def checkOwnership (env : LoadEnv) (path : PathBuf) (options : LoadOptions) (includeParent : Bool) :
    Issues :=
  match env.canonicalize path with
  | .error e => [⟨options.severity,some path,none,"cannot resolve path: " ++ e.message⟩]
  | .ok resolved =>
    let toCheck := resolved::(if includeParent then resolved.parent.toList else [])
    toCheck.flatMap fun p =>
      let what := if p = resolved then "file" else "containing directory " ++ p.display
      match env.metadata p with
      | .ok info => checkOwnerAndMode path options what info
      | .error e => [⟨options.severity,some path,none,"cannot stat " ++ what ++ ": " ++ e.message⟩]

/-- The closure of `check_paths_exist`. -/
def checkPath (env : LoadEnv) (origin : Option PathBuf) (group : Option Text) (field : String)
    (path : AbsPath) : Issues :=
  match env.metadata (pathOf path.display) with
  | .ok info =>
    if info.isDir then []
    else [errorIssue origin group (field ++ ": " ++ displayPath path ++ " is not a directory")]
  | .error e =>
    match e.kind with
    | .notFound =>
      [errorIssue origin group (field ++ ": " ++ displayPath path ++ " does not exist")]
    | .permissionDenied => [⟨.warning,origin,group,
        field ++ ": cannot verify " ++ displayPath path ++ ": " ++ e.message⟩]
    | .other => [errorIssue origin group
        (field ++ ": cannot access " ++ displayPath path ++ ": " ++ e.message)]

/-- `check_paths_exist`. -/
def checkPathsExist (env : LoadEnv) (config : Config) : Issues :=
  checkPath env config.files.head? none "daemon.state_dir" config.daemon.stateDir++
    (Maps.values config.groups).flatMap (fun group =>
      let check := checkPath env (some group.origin) (some group.name.display)
      check "source_root" group.sourceRoot++check "target_root" group.targetRoot++
        check "membership" group.membership)++
    (Maps.values config.groupSets).flatMap fun set =>
      let check := checkPath env (some set.origin) (some (setLabel set.name.text))
      check "membership_root" set.membershipRoot++check "source_root" set.sourceRoot++
        check "target_root" set.targetRoot

/-- What is read so far: path, content, whether it is the main file. -/
abbrev Sources := List (PathBuf × Text × Bool)

/-- The main file. -/
def readMain (env : LoadEnv) (options : LoadOptions) : Sources × Issues :=
  let (result,issues) := readChecked env options.mainFile options true
  match result with
  | .ok (some content) => ([(options.mainFile,content,true)],issues)
  | .ok none =>
    ([],issues++if options.mainFileRequired then
      [errorIssue (some options.mainFile) none "file does not exist"] else [])
  | .error e =>
    ([],issues++[errorIssue (some options.mainFile) none ("cannot read: " ++ e.message)])

/-- The installed fragments. -/
def installedFragments (env : LoadEnv) (options : LoadOptions) : List PathBuf × Issues :=
  match listFragments env options.configDir with
  | .ok (some paths) => (paths,[])
  | .ok none =>
    ([],if options.configDirRequired then
      [errorIssue (some options.configDir) none "directory does not exist"] else [])
  | .error e =>
    ([],[errorIssue (some options.configDir) none ("cannot list directory: " ++ e.message)])

/-- Names to remove that are not installed. -/
def checkRemovals (options : LoadOptions) (installed : List PathBuf) : Issues :=
  options.fragmentChanges.remove.flatMap fun name =>
    if installed.any (fileNameOf · = name) then []
    else [errorIssue (some options.configDir) none
      ("cannot remove '" ++ String.ofList name ++ "': no such installed fragment")]

/-- The fragments to read in order, and which of them are candidates. -/
def selectFragments (changes : FragmentChanges) (candidateNames : List Text)
    (installed : List PathBuf) : List (PathBuf × Bool) :=
  let kept := installed.filter fun p =>
    fileNameOf p ∉ changes.remove && fileNameOf p ∉ candidateNames
  (kept.map (·,false)++changes.add.map (·,true)).insertionSort fun a b =>
    (compare (fileNameOf a.1) (fileNameOf b.1)).isLE = true

/-- A fragment: a candidate is not installed yet, so its directory is not checked. -/
def readFragment (env : LoadEnv) (options : LoadOptions) (fragment : PathBuf × Bool) :
    Sources × Issues :=
  let (path,isCandidate) := fragment
  let (result,issues) := readChecked env path options !isCandidate
  match result with
  | .ok (some content) => ([(path,content,false)],issues)
  | .ok none =>
    ([],issues++if isCandidate then [errorIssue (some path) none "file does not exist"] else [])
  | .error e => ([],issues++[errorIssue (some path) none ("cannot read: " ++ e.message)])

/-- A file as TOML. -/
def parseSource (env : LoadEnv) (source : PathBuf × Text × Bool) : Option Parsed × Issues :=
  match env.parse source.2.1 with
  | .ok raw => (some (source.1,raw,source.2.2),[])
  | .error e => (none,[errorIssue (some source.1) none ("invalid TOML: " ++ e)])

/-- Everything `load` reads and parses before it assembles. -/
def loadFiles (env : LoadEnv) (options : LoadOptions) : List Parsed × Issues :=
  let main := readMain env options
  let candidates := validateCandidates options.fragmentChanges
  let installed := installedFragments env options
  let fragments := (selectFragments options.fragmentChanges candidates.1 installed.1).map
    (readFragment env options)
  let sources := main.1++fragments.flatMap Prod.fst
  let ownership :=
    if sources.any (fun source => !source.2.2) then
      checkOwnership env options.configDir options true
    else []
  let parsed := sources.map (parseSource env)
  (parsed.filterMap Prod.fst,main.2++candidates.2++installed.2++
    checkRemovals options installed.1++fragments.flatMap Prod.snd++ownership++
    parsed.flatMap Prod.snd)

/-- The end of `load`. -/
def finishLoad (config : Config) (issues : Issues) : Except Issues Loaded :=
  if hasErrors issues then .error issues else .ok ⟨config,issues⟩

theorem finishLoad_ok {config : Config} {issues : Issues} {loaded : Loaded}
    (h : finishLoad config issues = .ok loaded) :
    loaded = ⟨config,issues⟩ ∧ hasErrors issues = false := by
  unfold finishLoad at h
  split_ifs at h with he
  cases h
  exact ⟨rfl,by simpa using he⟩

/-- `load`. -/
def load (env : LoadEnv) (options : LoadOptions) : Except Issues Loaded :=
  let files := loadFiles env options
  let assembled := assemble env.escapeDebug files.1
  let found := files.2++
    (if files.1.isEmpty && !hasErrors files.2 then
      [⟨.warning,none,none,"no configuration files found; no groups are defined"⟩]
    else [])++assembled.2
  finishLoad assembled.1 (found++
    if options.checkPaths && !hasErrors found then checkPathsExist env assembled.1 else [])

/-- A configuration that loads was assembled without errors from what was read. -/
theorem load_ok {env : LoadEnv} {options : LoadOptions} {loaded : Loaded}
    (h : load env options = .ok loaded) :
    loaded.config = (assemble env.escapeDebug (loadFiles env options).1).1 ∧
      hasErrors (assemble env.escapeDebug (loadFiles env options).1).2 = false := by
  unfold load at h
  obtain ⟨hl,he⟩ := finishLoad_ok h
  rw [hasErrors_append,hasErrors_append,Bool.or_eq_false_iff,Bool.or_eq_false_iff] at he
  exact ⟨by rw [hl],he.1.2⟩

/-- A resync interval is not zero. -/
def DaemonConfig.Resyncs (d : DaemonConfig) : Prop := ∀ s, d.resyncInterval = some s → 1 ≤ s

theorem validateDaemon_resyncs (escapeDebug : Text → String) (raw : RawDaemon) (path : PathBuf) :
    (validateDaemon escapeDebug raw path).1.Resyncs := by
  intro s h
  simp only [validateDaemon] at h
  split at h
  · cases h
    decide
  · split_ifs at h with hmax hzero
    · cases h
      decide
    · cases h
      omega

theorem assembleGroup_daemon (path : PathBuf) (a : Assembly) (entry : Text × RawGroup) :
    (assembleGroup path a entry).config.daemon = a.config.daemon := by
  unfold assembleGroup
  split
  · rfl
  · split
    · rfl
    · obtain ⟨group,issues⟩ := validateGroup _ entry.2 path
      cases group <;> rfl

theorem assembleGroupSet_daemon (path : PathBuf) (a : Assembly) (entry : Text × RawGroupSet) :
    (assembleGroupSet path a entry).config.daemon = a.config.daemon := by
  unfold assembleGroupSet
  split
  · rfl
  · split
    · rfl
    · obtain ⟨set,issues⟩ := validateGroupSet _ entry.2 path
      cases set <;> rfl

theorem assembleFile_resyncs (escapeDebug : Text → String) {a : Assembly} (file : Parsed)
    (h : a.config.daemon.Resyncs) : (assembleFile escapeDebug a file).config.daemon.Resyncs := by
  unfold assembleFile
  rw [Lists.foldl_frame (g := fun a : Assembly => a.config.daemon) (assembleGroupSet_daemon file.1),
    Lists.foldl_frame (g := fun a : Assembly => a.config.daemon) (assembleGroup_daemon file.1)]
  unfold assembleDaemon
  cases file.2.1.daemon with
  | none => exact h
  | some raw =>
    by_cases hmain : file.2.2 = true
    · simp only [if_pos hmain]
      exact validateDaemon_resyncs escapeDebug raw file.1
    · simp only [if_neg hmain]
      exact h

theorem load_resyncs {env : LoadEnv} {options : LoadOptions} {loaded : Loaded}
    (h : load env options = .ok loaded) : loaded.config.daemon.Resyncs := by
  rw [(load_ok h).1]
  generalize (loadFiles env options).1 = files
  unfold assemble
  induction files using List.reverseRecOn with
  | nil =>
    intro s hs
    cases hs
    decide
  | append_singleton files file ih =>
    simp only [List.foldl_append,List.foldl_cons,List.foldl_nil]
    exact assembleFile_resyncs env.escapeDebug file ih

end Byssus
