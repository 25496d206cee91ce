import Byssus.Library.Maps
import Byssus.OsPath
import Byssus.State
import Byssus.Template

/-! Configuration: the validated types, and how parsed files are put together.
A validated set keeps the proof of what its validation checked. -/
namespace Byssus

/-- `AbsPathError`, as displayed. -/
def AbsPathError.message : AbsPathError → String
  | .notAbsolute => "path must be absolute"
  | .emptyComponent => "path contains an empty component"
  | .dotComponent component => "path contains a '" ++ String.ofList component ++ "' component"
  | .nul => "path contains a NUL byte"

/-- `NameError`, as displayed; `{byte:#04x}` is two hexadecimal digits. -/
def NameError.message : NameError → String
  | .empty => "name is empty"
  | .tooLong len => "name is " ++ toString len ++ " bytes long; the maximum is " ++
      toString maxNameLen
  | .leadingDot => "name begins with '.'"
  | .invalidByte byte offset => "name contains disallowed byte 0x" ++
      String.ofList [Nat.digitChar (byte.toNat/16),Nat.digitChar (byte.toNat%16)] ++
      " at offset " ++ toString offset

structure DaemonConfig where
  user : Option Text
  stateDir : AbsPath
  /-- In seconds; `none` if disabled. -/
  resyncInterval : Option ℕ
  deriving DecidableEq

/-- `DEFAULT_STATE_DIR`. -/
def defaultStateDir : AbsPath := ⟨["var".toList,"lib".toList,"byssus".toList],by decide⟩
/-- `DEFAULT_RESYNC_INTERVAL_SECS`. -/
def defaultResyncIntervalSecs : ℕ := 60
/-- `MAX_RESYNC_INTERVAL_SECS`. -/
def maxResyncIntervalSecs : ℕ := 86400

/-- `DaemonConfig::default`. -/
def DaemonConfig.default : DaemonConfig := ⟨none,defaultStateDir,some defaultResyncIntervalSecs⟩

/-- A group whose templates have no placeholder left but the member's. -/
structure GroupConfig where
  name : GroupId
  sourceRoot : AbsPath
  source : Template
  targetRoot : AbsPath
  target : Template
  membership : AbsPath
  attrs : MountAttrs
  origin : PathBuf
  sourceBound : source.depth = 0
  targetBound : target.depth = 0
  deriving DecidableEq

/-- A template for groups discovered beneath `membershipRoot`; the target uses every level. -/
structure GroupSetConfig where
  name : Name
  membershipRoot : AbsPath
  sourceRoot : AbsPath
  source : Template
  targetRoot : AbsPath
  target : Template
  depth : ℕ
  attrs : MountAttrs
  origin : PathBuf
  depth_eq : depth = max (max source.depth target.depth) 1
  levels : ∀ level : Fin maxSetDepth, level.val < depth → target.hasLevel level = true
  deriving DecidableEq

namespace GroupSetConfig

theorem depth_le_maxSetDepth (set : GroupSetConfig) : set.depth ≤ maxSetDepth := by
  have hs := set.source.depth_le_maxSetDepth
  have ht := set.target.depth_le_maxSetDepth
  have hd := set.depth_eq
  have hone : 1 ≤ maxSetDepth := by decide
  omega

theorem depth_pos (set : GroupSetConfig) : 0 < set.depth := by
  have hd := set.depth_eq
  omega

theorem source_depth_le (set : GroupSetConfig) : set.source.depth ≤ set.depth := by
  have hd := set.depth_eq
  omega

theorem target_depth_le (set : GroupSetConfig) : set.target.depth ≤ set.depth := by
  have hd := set.depth_eq
  omega

/-- `GroupSetConfig::group`; the source asserts `h`. -/
def group (set : GroupSetConfig) (path : List Name) (h : path.length = set.depth) :
    Except InterpolateError GroupConfig :=
  match hs : set.source.bindLevels path (h ▸ set.source_depth_le) with
  | .error e => .error e
  | .ok source =>
    match ht : set.target.bindLevels path (h ▸ set.target_depth_le) with
    | .error e => .error e
    | .ok target => .ok {
        name := .inSet set.name path
        sourceRoot := set.sourceRoot
        source := source
        targetRoot := set.targetRoot
        target := target
        membership := path.foldl AbsPath.joinName set.membershipRoot
        attrs := set.attrs
        origin := set.origin
        sourceBound := Template.bindLevels_depth hs
        targetBound := Template.bindLevels_depth ht }

/-- What `group` returns: the parts bound, the rest as in the set. -/
theorem group_ok {set : GroupSetConfig} {path : List Name} {h : path.length = set.depth}
    {g : GroupConfig} (hg : set.group path h = .ok g) :
    set.source.bindLevels path (h ▸ set.source_depth_le) = .ok g.source ∧
      set.target.bindLevels path (h ▸ set.target_depth_le) = .ok g.target ∧
      g.name = .inSet set.name path ∧ g.targetRoot = set.targetRoot ∧
      g.membership = path.foldl AbsPath.joinName set.membershipRoot := by
  unfold group at hg
  split at hg
  · cases hg
  · rename_i source hs
    split at hg
    · cases hg
    · rename_i target ht
      cases hg
      exact ⟨hs,ht,rfl,rfl,rfl⟩

theorem group_ok_iff {set : GroupSetConfig} {path : List Name} {h : path.length = set.depth} :
    (∃ g, set.group path h = .ok g) ↔ set.source.BindFits path ∧ set.target.BindFits path := by
  constructor
  · intro hex
    obtain ⟨g,hg⟩ := hex
    obtain ⟨hs,ht,-⟩ := group_ok hg
    exact ⟨Template.bindLevels_ok_iff.mp ⟨_,hs⟩,Template.bindLevels_ok_iff.mp ⟨_,ht⟩⟩
  · intro hfit
    have hle : ∀ t : Template, t.depth ≤ set.depth → t.depth ≤ path.length := by
      intro t ht
      rwa [h]
    obtain ⟨source,hs⟩ := (Template.bindLevels_ok_iff (h := hle _ set.source_depth_le)).mpr hfit.1
    obtain ⟨target,ht⟩ := (Template.bindLevels_ok_iff (h := hle _ set.target_depth_le)).mpr hfit.2
    unfold group
    split
    · rename_i e he
      rw [he] at hs
      cases hs
    · split
      · rename_i e he
        rw [he] at ht
        cases ht
      · exact ⟨_,rfl⟩

end GroupSetConfig

structure Config where
  daemon : DaemonConfig
  groups : Std.ExtTreeMap Name GroupConfig
  groupSets : Std.ExtTreeMap Name GroupSetConfig
  files : List PathBuf

/-- `Config::default`. -/
def Config.default : Config := ⟨.default,∅,∅,[]⟩

inductive Severity
  | warning
  | error
  deriving DecidableEq

structure Issue where
  severity : Severity
  file : Option PathBuf
  group : Option Text
  message : String
  deriving DecidableEq

/-- What a function pushes onto the issues. -/
abbrev Issues := List Issue

def hasErrors (issues : Issues) : Bool := issues.any (·.severity = .error)

@[simp] theorem hasErrors_append (is js : Issues) :
    hasErrors (is++js) = (hasErrors is || hasErrors js) := by
  simp [hasErrors]

def errorIssue (file : Option PathBuf) (group : Option Text) (message : String) : Issue :=
  ⟨.error,file,group,message⟩

/-! ### Raw files -/

structure RawDaemon where
  user : Option Text
  stateDir : Option Text
  resyncIntervalSecs : Option ℕ

structure RawGroup where
  sourceRoot : Text
  source : Text
  targetRoot : Text
  target : Text
  membership : Text
  readOnly : Option Bool
  noexec : Option Bool
  nosymfollow : Option Bool

structure RawGroupSet where
  membershipRoot : Text
  sourceRoot : Text
  source : Text
  targetRoot : Text
  target : Text
  readOnly : Option Bool
  noexec : Option Bool
  nosymfollow : Option Bool

structure RawFile where
  daemon : Option RawDaemon
  groups : Std.ExtTreeMap Text RawGroup
  groupSets : Std.ExtTreeMap Text RawGroupSet

/-! ### Validation -/

/-- `is_valid_user_name`; a byte of the allowlist is a character. -/
def isValidUserName (user : Text) : Bool :=
  let body := if user.getLast? = some '$' then user.dropLast else user
  body ≠ [] && byteLen user ≤ 32 && body.head? ≠ some '-' &&
    body.all fun c => c.isAlphanum || c = '_' || c = '.' || c = '-'

/-- `str::escape_debug` of a user name, as far as it occurs in messages, is a parameter:
it depends on Unicode tables. -/
def userIssue (escapeDebug : Text → String) (path : PathBuf) (user : Text) : Issue :=
  errorIssue (some path) none ("daemon.user: invalid user name '" ++ escapeDebug user ++ "'")

/-- `validate_daemon`. -/
def validateDaemon (escapeDebug : Text → String) (raw : RawDaemon) (path : PathBuf) :
    DaemonConfig × Issues :=
  let user := match raw.user with
    | none => (none,[])
    | some user =>
      if isValidUserName user then (some user,[]) else (none,[userIssue escapeDebug path user])
  let stateDir := match raw.stateDir with
    | none => (defaultStateDir,[])
    | some dir =>
      match AbsPath.new dir with
      | .ok p => (p,[])
      | .error e => (defaultStateDir,[errorIssue (some path) none ("daemon.state_dir: " ++ e.message)])
  let resyncInterval := match raw.resyncIntervalSecs with
    | none => (some defaultResyncIntervalSecs,[])
    | some secs =>
      if secs > maxResyncIntervalSecs then
        (some defaultResyncIntervalSecs,[errorIssue (some path) none
          ("daemon.resync_interval_secs: " ++ toString secs ++ " exceeds the maximum of " ++
            toString maxResyncIntervalSecs)])
      else (if secs ≠ 0 then some secs else none,[])
  (⟨user.1,stateDir.1,resyncInterval.1⟩,user.2++stateDir.2++resyncInterval.2)

/-- A field of a group or set: its value with how it was obtained, or the issue to report. -/
def checkField {α ε : Type} (message : ε → String) (path : PathBuf) (group : Text) (field : String)
    (r : Except ε α) : Option {a // r = .ok a} × Issues :=
  match r with
  | .ok a => (some ⟨a,rfl⟩,[])
  | .error e => (none,[errorIssue (some path) (some group) (field ++ ": " ++ message e)])

/-- The closure `abs` of the validation functions. -/
def absField (path : PathBuf) (group : Text) (field : String) (value : Text) :
    Option {a // AbsPath.new value = .ok a} × Issues :=
  checkField AbsPathError.message path group field (AbsPath.new value)

/-- The mount attributes of a raw group or set, with their defaults. -/
def rawAttrs (readOnly noexec nosymfollow : Option Bool) : MountAttrs where
  readOnly := readOnly.getD MountAttrs.default.readOnly
  noexec := noexec.getD MountAttrs.default.noexec
  nosymfollow := nosymfollow.getD MountAttrs.default.nosymfollow

/-- `validate_group`. -/
def validateGroup (name : Name) (raw : RawGroup) (path : PathBuf) : Option GroupConfig × Issues :=
  let sourceRoot := absField path name.text "source_root" raw.sourceRoot
  let targetRoot := absField path name.text "target_root" raw.targetRoot
  let membership := absField path name.text "membership" raw.membership
  let template := fun field value =>
    checkField TemplateError.message path name.text field (Template.parse value)
  let source := template "source" raw.source
  let target := template "target" raw.target
  let issues := sourceRoot.2++targetRoot.2++membership.2++source.2++target.2
  match sourceRoot.1,source.1,targetRoot.1,target.1,membership.1 with
  | some sourceRoot,some source,some targetRoot,some target,some membership =>
    (some {
      name := .statically name
      sourceRoot := sourceRoot.1
      source := source.1
      targetRoot := targetRoot.1
      target := target.1
      membership := membership.1
      attrs := rawAttrs raw.readOnly raw.noexec raw.nosymfollow
      origin := path
      sourceBound := Template.parse_depth source.2
      targetBound := Template.parse_depth target.2 },issues)
  | _,_,_,_,_ => (none,issues)

/-- `format!("{name}/*")`. -/
def setLabel (name : Text) : Text := name++['/','*']

/-- The first level in use that the target template lacks. -/
def missingLevel (target : Template) (depth : ℕ) : Option (Fin maxSetDepth) :=
  (List.finRange maxSetDepth).find? fun level => level.val < depth && !target.hasLevel level

theorem hasLevel_of_missingLevel {target : Template} {depth : ℕ}
    (h : missingLevel target depth = none) (level : Fin maxSetDepth) (hl : level.val < depth) :
    target.hasLevel level = true := by
  have hh := List.find?_eq_none.mp h level (List.mem_finRange level)
  simpa [hl] using hh

/-- `validate_group_set`. -/
def validateGroupSet (name : Name) (raw : RawGroupSet) (path : PathBuf) :
    Option GroupSetConfig × Issues :=
  let label := setLabel name.text
  let membershipRoot := absField path label "membership_root" raw.membershipRoot
  let sourceRoot := absField path label "source_root" raw.sourceRoot
  let targetRoot := absField path label "target_root" raw.targetRoot
  let template := fun field value =>
    checkField TemplateError.message path label field (Template.parseForSet value)
  let source := template "source" raw.source
  let target := template "target" raw.target
  let issues := membershipRoot.2++sourceRoot.2++targetRoot.2++source.2++target.2
  match target.1 with
  | none => (none,issues)
  | some target =>
    let depth := match source.1 with
      | some source => max (max source.1.depth target.1.depth) 1
      | none => 1
    match hm : missingLevel target.1 depth with
    | some level =>
      (none,issues++[errorIssue (some path) (some label)
        ("target: " ++ (TemplateError.missingLevel (placeholderText (some level))).message)])
    | none =>
      match membershipRoot.1,sourceRoot.1,hs : source.1,targetRoot.1 with
      | some membershipRoot,some sourceRoot,some source,some targetRoot =>
        (some {
          name := name
          membershipRoot := membershipRoot.1
          sourceRoot := sourceRoot.1
          source := source.1
          targetRoot := targetRoot.1
          target := target.1
          depth := max (max source.1.depth target.1.depth) 1
          attrs := rawAttrs raw.readOnly raw.noexec raw.nosymfollow
          origin := path
          depth_eq := rfl
          levels := by
            apply hasLevel_of_missingLevel
            simpa only [depth,hs] using hm },issues)
      | _,_,_,_ => (none,issues)

/-! ### Cross-group checks -/

/-- A membership location and the target root that must not contain it. -/
structure MembershipArea where
  label : Text
  origin : PathBuf
  path : AbsPath
  targetRoot : AbsPath
  isSet : Bool

/-- The areas of the static groups, then of the sets. -/
def membershipAreas (config : Config) : List MembershipArea :=
  (Maps.values config.groups).map (fun g => ⟨g.name.display,g.origin,g.membership,g.targetRoot,false⟩)++
    (Maps.values config.groupSets).map fun set =>
      ⟨setLabel set.name.text,set.origin,set.membershipRoot,set.targetRoot,true⟩

def displayPath (p : AbsPath) : String := String.ofList p.display

/-- One iteration of the loops of `check_cross_group`. -/
def checkAreas (area other : MembershipArea) : Issues :=
  (if area.path.isAtOrBeneath other.targetRoot then
    [errorIssue (some area.origin) (some area.label)
      (if area.label = other.label then
        "membership directory " ++ displayPath area.path ++
          " must not be at or beneath target_root " ++ displayPath other.targetRoot
      else
        "membership directory " ++ displayPath area.path ++
          " must not be at or beneath target_root " ++ displayPath other.targetRoot ++
          " of group '" ++ String.ofList other.label ++ "'")]
  else [])++
  if area.label ≠ other.label ∧ other.isSet ∧
      (area.path.isAtOrBeneath other.path ∨ other.path.isAtOrBeneath area.path) then
    [errorIssue (some area.origin) (some area.label)
      ("membership directory " ++ displayPath area.path ++ " overlaps membership_root " ++
        displayPath other.path ++ " of group set '" ++ String.ofList other.label ++ "'")]
  else []

/-- `check_cross_group`. -/
def checkCrossGroup (config : Config) : Issues :=
  (membershipAreas config).flatMap fun area => (membershipAreas config).flatMap (checkAreas area)

/-! ### Assembly -/

/-- The configuration so far, and where groups and sets were defined first. -/
structure Assembly where
  config : Config
  origins : Std.ExtTreeMap Name PathBuf
  setOrigins : Std.ExtTreeMap Name PathBuf
  issues : Issues

/-- A file as `assemble` takes it: its path, its content, whether it is the main file. -/
abbrev Parsed := PathBuf × RawFile × Bool

def Assembly.push (a : Assembly) (issues : Issues) : Assembly :=
  {a with issues := a.issues++issues}

/-- One iteration of the loop over the groups of a file. -/
def assembleGroup (path : PathBuf) (a : Assembly) (entry : Text × RawGroup) : Assembly :=
  match Name.new entry.1 with
  | .error e =>
    a.push [errorIssue (some path) (some entry.1) ("invalid group name: " ++ e.message)]
  | .ok name =>
    match a.origins[name]? with
    | some first => a.push [errorIssue (some path) (some entry.1)
        ("group is already defined in " ++ first.display)]
    | none =>
      let (group,issues) := validateGroup name entry.2 path
      let a := {a with origins := a.origins.insert name path}.push issues
      match group with
      | some group => {a with
          config := {a.config with groups := a.config.groups.insert name group}}
      | none => a

/-- One iteration of the loop over the group sets of a file. -/
def assembleGroupSet (path : PathBuf) (a : Assembly) (entry : Text × RawGroupSet) : Assembly :=
  let label := setLabel entry.1
  match Name.new entry.1 with
  | .error e =>
    a.push [errorIssue (some path) (some label) ("invalid group set name: " ++ e.message)]
  | .ok name =>
    match a.setOrigins[name]? with
    | some first => a.push [errorIssue (some path) (some label)
        ("group set is already defined in " ++ first.display)]
    | none =>
      let (set,issues) := validateGroupSet name entry.2 path
      let a := {a with setOrigins := a.setOrigins.insert name path}.push issues
      match set with
      | some set => {a with
          config := {a.config with groupSets := a.config.groupSets.insert set.name set}}
      | none => a

/-- The `[daemon]` table of a file. -/
def assembleDaemon (escapeDebug : Text → String) (a : Assembly) (file : Parsed) : Assembly :=
  match file.2.1.daemon with
  | none => a
  | some daemon =>
    if file.2.2 then
      let (daemon,issues) := validateDaemon escapeDebug daemon file.1
      {a with config := {a.config with daemon := daemon}}.push issues
    else a.push [errorIssue (some file.1) none
      "[daemon] settings are only allowed in the main configuration file"]

/-- One iteration of the loop over the files in `assemble`. -/
def assembleFile (escapeDebug : Text → String) (a : Assembly) (file : Parsed) : Assembly :=
  let a := {a with config := {a.config with files := a.config.files++[file.1]}}
  let a := assembleDaemon escapeDebug a file
  let a := file.2.1.groups.toList.foldl (assembleGroup file.1) a
  file.2.1.groupSets.toList.foldl (assembleGroupSet file.1) a

/-- `assemble`. -/
def assemble (escapeDebug : Text → String) (files : List Parsed) : Config × Issues :=
  let a := files.foldl (assembleFile escapeDebug) ⟨.default,∅,∅,[]⟩
  (a.config,a.issues++checkCrossGroup a.config)

end Byssus
