import Byssus.Config
import Byssus.Membership

/-! Opened membership directories, and the discovery of the groups of sets.
A directory handle is whatever the operating system hands out; every read, type check
and open may fail. -/
namespace Byssus

inductive Errno
  | noent
  | other (code : ℕ)
  deriving DecidableEq

/-- What the operating system answers during one pass. -/
structure ScanEnv (H : Type) where
  /-- The file names listed until the end, or until an error. -/
  readDir : H → Except Errno (List (List UInt8) × Option Errno)
  /-- The type and size of an entry, without following symlinks. -/
  statx : H → List UInt8 → Except Errno EntryKind
  /-- `openat2` of an entry as a directory. -/
  openDir : H → List UInt8 → Except Errno H
  /-- Whether the opened directory has no links. -/
  isDeleted : H → Except Errno Bool
  /-- How an error is displayed. -/
  strerror : Errno → String

structure GroupRuntime (H : Type) where
  config : GroupConfig
  membershipDir : H

structure SetRuntime (H : Type) where
  config : GroupSetConfig
  rootDir : H

/-- The opened groups and sets, each filed under its own name. -/
structure Runtime (H : Type) where
  groups : Std.ExtTreeMap GroupId (GroupRuntime H)
  sets : Std.ExtTreeMap Name (SetRuntime H)
  intermediates : Std.ExtTreeMap GroupId AbsPath
  groups_keyed : ∀ (id : GroupId) (g : GroupRuntime H), groups[id]? = some g → g.config.name = id
  sets_keyed : ∀ (n : Name) (s : SetRuntime H), sets[n]? = some s → s.config.name = n

structure Discovery where
  notes : List Note
  unavailable : Finset GroupId
  unavailableSets : Finset Name
  scannedSets : Finset Name

structure SetScan (H : Type) where
  groups : List (GroupRuntime H)
  intermediates : List (GroupId × AbsPath)
  notes : List Note
  unavailable : List GroupId

variable {H : Type}

namespace SetScan

def empty : SetScan H := ⟨[],[],[],[]⟩

def note (scan : SetScan H) (n : Note) : SetScan H := {scan with notes := scan.notes++[n]}

/-- A directory that exists but cannot be opened or read. -/
def unreadable (scan : SetScan H) (env : ScanEnv H) (id : GroupId) (e : Errno) : SetScan H where
  groups := scan.groups
  intermediates := scan.intermediates
  notes := scan.notes++[.membershipUnreadable id (env.strerror e)]
  unavailable := scan.unavailable++[id]

def addGroup (scan : SetScan H) (g : GroupRuntime H) : SetScan H :=
  {scan with groups := scan.groups++[g]}

def addIntermediate (scan : SetScan H) (id : GroupId) (path : AbsPath) : SetScan H :=
  {scan with intermediates := scan.intermediates++[(id,path)]}

end SetScan

/-- The type as it is named in a rejection: the size is not asked for. -/
def withoutSize : EntryKind → EntryKind
  | .regular _ => .regular 0
  | kind => kind

/-- `classify_set_entry`. -/
def classifySetEntry (env : ScanEnv H) (dir : H) (fileName : List UInt8) :
    Except RejectReason (Option Name) :=
  match Name.fromBytes fileName with
  | .error e => .error (.invalidName e)
  | .ok name =>
    match env.statx dir fileName with
    | .ok .directory => .ok (some name)
    | .error .noent => .ok none
    | .ok other => .error (.notDirectory (withoutSize other))
    | .error e => .error (.inaccessible (env.strerror e))

/-- How an entry is displayed: the level names above it, and its own. -/
def displayEntry (above : List Name) (fileName : List UInt8) : Text :=
  List.intercalate ['/'] (above.map Name.text++[displayBytes fileName])

/-- The level names of a directory that has `levels` levels of groups beneath it. -/
abbrev GroupSetConfig.Prefix (set : GroupSetConfig) (levels : ℕ) :=
  {path : List Name // path.length+levels = set.depth}

def GroupSetConfig.Prefix.push {set : GroupSetConfig} {levels : ℕ} (above : set.Prefix (levels+1))
    (name : Name) : set.Prefix levels :=
  ⟨above.1++[name],by
    have h := above.2
    simp only [List.length_append,List.length_singleton]
    omega⟩

/-- `GroupSetConfig::group` of a directory at the last level. -/
def GroupSetConfig.groupAt (set : GroupSetConfig) (path : set.Prefix 0) :
    Except InterpolateError GroupConfig :=
  set.group path.1 path.2

/-- What is done with an opened directory: it is a group, or `below` scans its entries. -/
def scanOpened (env : ScanEnv H) (set : GroupSetConfig) :
    (levels : ℕ) → (H → set.Prefix levels → SetScan H → SetScan H × Option Errno) →
    Text → set.Prefix levels → H → SetScan H → SetScan H
  | 0, _, displayName, path, opened, scan =>
    match set.groupAt path with
    | .ok config => scan.addGroup ⟨config,opened⟩
    | .error e => scan.note (.setEntryRejected set.name
        ⟨displayName,.inaccessible ("template: " ++ e.message)⟩)
  | _+1, below, _, path, opened, scan =>
    match below opened path scan with
    | (scan,some e) => scan.unreadable env (.inSet set.name path.1) e
    | (scan,none) => scan.addIntermediate (.inSet set.name path.1)
        (path.1.foldl AbsPath.joinName set.membershipRoot)

/-- One iteration of the loop of `scan_level`. -/
def scanEntry (env : ScanEnv H) (set : GroupSetConfig) {levels : ℕ} (dir : H)
    (above : set.Prefix (levels+1)) (descend : Text → set.Prefix levels → H → SetScan H → SetScan H)
    (scan : SetScan H) (fileName : List UInt8) : SetScan H :=
  if fileName.head? = some dotByte then scan
  else
    let displayName := displayEntry above.1 fileName
    match classifySetEntry env dir fileName with
    | .error reason => scan.note (.setEntryRejected set.name ⟨displayName,reason⟩)
    | .ok none => scan
    | .ok (some name) =>
      let path := above.push name
      match env.openDir dir fileName with
      | .error .noent => scan
      | .error e => scan.unreadable env (.inSet set.name path.1) e
      | .ok opened => descend displayName path opened scan

/-- `scan_level` of a directory with `levels` levels beneath it: what is found, and the
error that ended the listing, if any. -/
def scanLevel (env : ScanEnv H) (set : GroupSetConfig) :
    (levels : ℕ) → H → set.Prefix levels → SetScan H → SetScan H × Option Errno
  | 0, _, _, scan => (scan,none)
  | levels+1, dir, above, scan =>
    match env.readDir dir with
    | .error e => (scan,some e)
    | .ok (names,failed) =>
      (names.foldl (scanEntry env set dir above
        (scanOpened env set levels (scanLevel env set levels))) scan,failed)

/-- The membership root has no level name above its entries. -/
def GroupSetConfig.rootPrefix (set : GroupSetConfig) : set.Prefix set.depth := ⟨[],by simp⟩

/-- `discover_set`. -/
def discoverSet (env : ScanEnv H) (set : SetRuntime H) : Except Note (SetScan H) :=
  if (env.isDeleted set.rootDir).toOption.getD false then .error (.setRootDeleted set.config.name)
  else match scanLevel env set.config set.config.depth set.rootDir set.config.rootPrefix .empty with
    | (scan,none) => .ok scan
    | (_,some e) => .error (.setRootUnreadable set.config.name (env.strerror e))

namespace Runtime

/-- Files a group under its name. -/
def insertGroup (runtime : Runtime H) (g : GroupRuntime H) : Runtime H :=
  {runtime with
    groups := runtime.groups.insert g.config.name g
    groups_keyed := by
      intro id g' h
      rw [Std.ExtTreeMap.getElem?_insert] at h
      split at h
      · rename_i heq
        rw [← Std.LawfulEqCmp.eq_of_compare heq]
        cases h
        rfl
      · exact runtime.groups_keyed id g' h}

/-- Files a set under its name. -/
def insertSet (runtime : Runtime H) (s : SetRuntime H) : Runtime H :=
  {runtime with
    sets := runtime.sets.insert s.config.name s
    sets_keyed := by
      intro n s' h
      rw [Std.ExtTreeMap.getElem?_insert] at h
      split at h
      · rename_i heq
        rw [← Std.LawfulEqCmp.eq_of_compare heq]
        cases h
        rfl
      · exact runtime.sets_keyed n s' h}

/-- The start of `discover`: only the static groups stay. -/
def staticOnly (runtime : Runtime H) : Runtime H where
  groups := runtime.groups.filter fun id _ => id.set.isNone
  sets := runtime.sets
  intermediates := ∅
  groups_keyed := by
    intro id g h
    rw [Std.ExtTreeMap.getElem?_filter'] at h
    exact runtime.groups_keyed id g (Option.filter_eq_some_iff.mp h).1
  sets_keyed := runtime.sets_keyed

def extendIntermediates (runtime : Runtime H) (found : List (GroupId × AbsPath)) : Runtime H :=
  {runtime with
    intermediates := found.foldl (fun m entry => m.insert entry.1 entry.2) runtime.intermediates}

/-- One iteration of the loop of `discover`. -/
def discoverStep (env : ScanEnv H) (skip : Finset Name) (acc : Runtime H × Discovery)
    (entry : Name × SetRuntime H) : Runtime H × Discovery :=
  let (runtime,discovery) := acc
  let (setName,set) := entry
  if setName ∈ skip then acc
  else match discoverSet env set with
    | .ok scan =>
      ((scan.groups.foldl insertGroup runtime).extendIntermediates scan.intermediates,
        { notes := discovery.notes++scan.notes
          unavailable := discovery.unavailable ∪ scan.unavailable.toFinset
          unavailableSets := discovery.unavailableSets
          scannedSets := insert setName discovery.scannedSets })
    | .error note =>
      (runtime,{discovery with
        notes := discovery.notes++[note]
        unavailableSets := insert setName discovery.unavailableSets})

/-- `Runtime::discover`; the sets in `skip` are not scanned. -/
def discover (env : ScanEnv H) (runtime : Runtime H) (skip : Finset Name) : Runtime H × Discovery :=
  runtime.sets.toList.foldl (discoverStep env skip) (runtime.staticOnly,⟨[],∅,∅,∅⟩)

/-- `Runtime::default`. -/
def empty : Runtime H := ⟨∅,∅,∅,by simp,by simp⟩

end Runtime

/-- What an error on opening concerns. -/
inductive Subject
  | group (id : GroupId)
  | set (name : Name)

structure OpenGroupError where
  subject : Subject
  field : String
  path : AbsPath
  source : Errno

/-- Opening of configured directories by path. -/
structure OpenEnv (H : Type) where
  openRoot : AbsPath → Except Errno Unit
  openDirForReading : AbsPath → Except Errno H

/-- The roots, then the membership directory, of a group or set. -/
def openDirs (env : OpenEnv H) (subject : Subject) (sourceRoot targetRoot : AbsPath)
    (field : String) (membership : AbsPath) : Except OpenGroupError H := do
  (env.openRoot sourceRoot).mapError (⟨subject,"source_root",sourceRoot,·⟩)
  (env.openRoot targetRoot).mapError (⟨subject,"target_root",targetRoot,·⟩)
  (env.openDirForReading membership).mapError (⟨subject,field,membership,·⟩)

/-- `Runtime::open_group`. -/
def openGroup (env : OpenEnv H) (group : GroupConfig) (runtime : Runtime H) :
    Except OpenGroupError (Runtime H) := do
  let dir ← openDirs env (.group group.name) group.sourceRoot group.targetRoot "membership"
    group.membership
  return runtime.insertGroup ⟨group,dir⟩

/-- `Runtime::open_set`. -/
def openSet (env : OpenEnv H) (set : GroupSetConfig) (runtime : Runtime H) :
    Except OpenGroupError (Runtime H) := do
  let dir ← openDirs env (.set set.name) set.sourceRoot set.targetRoot "membership_root"
    set.membershipRoot
  return runtime.insertSet ⟨set,dir⟩

/-- `Runtime::open`: the first error ends it. -/
def Runtime.open (env : OpenEnv H) (config : Config) : Except OpenGroupError (Runtime H) := do
  let runtime ← config.groups.toList.foldlM (fun runtime entry => openGroup env entry.2 runtime)
    .empty
  config.groupSets.toList.foldlM (fun runtime entry => openSet env entry.2 runtime) runtime

end Byssus
