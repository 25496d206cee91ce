import Byssus.CandidateTrial
import Byssus.Durable
import Byssus.Mountinfo
import Byssus.PassNotes

/-! `byssus check`: whether a reload would accept the configuration.
The check loads, opens and watches what a reload would, and puts nothing in place.  It also scans
the sets, which a reload leaves to its pass. -/
namespace Byssus
open Std (ExtTreeMap)

/-- `MountTable::by_id`. -/
def Mountinfo.byId (mounts : List Mountinfo.MountInfo) (id : UInt64) : Option Mountinfo.MountInfo :=
  mounts.find? fun m => m.mountId = id

/-! ### Propagation of the target roots -/

/-- Outcome of checking a target root's propagation. -/
inductive PropagationCheck
  | shared
  | private_
  | slaveOnly
  | sharedAndSlave
  | unbindable
  | unknown (reason : String)
  deriving DecidableEq

namespace PropagationCheck

/-- `describe`. -/
def describe : PropagationCheck → String
  | shared => "shared"
  | private_ => "private (mounts will not reach containers via rslave)"
  | slaveOnly => "slave only (the daemon appears to run in a non-host mount namespace; mounts will be invisible outside it)"
  | sharedAndSlave => "shared but also a slave (the daemon appears to run in a private mount namespace, for example one created by a systemd option; mounts will not propagate back to the host)"
  | unbindable => "unbindable (mounts will not reach containers)"
  | unknown reason => "unknown (" ++ reason ++ ")"

/-- `is_slave`. -/
def isSlave : PropagationCheck → Bool
  | slaveOnly => true
  | sharedAndSlave => true
  | _ => false

/-- `classify`. -/
def classify (mounts : List Mountinfo.MountInfo) (mountId : UInt64) : PropagationCheck :=
  match (Mountinfo.byId mounts mountId).map Mountinfo.MountInfo.propagation with
  | some (.shared _) => shared
  | some (.sharedAndSlave _ _) => sharedAndSlave
  | some .private_ => private_
  | some (.slave _) => slaveOnly
  | some .unbindable => unbindable
  | none => unknown ("mount ID " ++ toString mountId.toNat ++ " not found in mountinfo")

end PropagationCheck

/-- What the operating system answers to a check, or to a reload. -/
structure CheckEnv (H K : Type) where
  load : LoadEnv
  /-- `drop_to_service_user`: the user ID that results. -/
  dropToServiceUser : Option Text → Except String ℕ
  openEnv : OpenEnv H
  scan : ScanEnv H
  inotify : K
  /-- `MountTable::read_self`. -/
  readSelf : Except String (List Mountinfo.MountInfo)
  /-- The mount ID of an opened root, where the kernel reports it. -/
  rootMount : AbsPath → Except String (Option UInt64)

variable {H K D : Type}

/-- `check_propagation` of one root. -/
def CheckEnv.rootPropagation (e : CheckEnv H K) (mounts : List Mountinfo.MountInfo)
    (root : AbsPath) : PropagationCheck :=
  match e.rootMount root with
  | .ok (some id) => .classify mounts id
  | .ok none => .unknown "kernel did not report mount ID"
  | .error reason => .unknown reason

/-- `propagation_targets`: the static groups and the sets, by label. -/
def propagationTargets (runtime : Runtime H) : List (Text × AbsPath) :=
  ((Maps.values runtime.groups).filter fun g => g.config.name.set.isNone).map (fun g =>
      (g.config.name.display,g.config.targetRoot))++
    (Maps.values runtime.sets).map fun set =>
      (setLabel set.config.name.text,set.config.targetRoot)

/-- `check_propagation` of every target root. -/
def checkPropagation (e : CheckEnv H K) (runtime : Runtime H) (allowSlave : Bool) :
    Except String (ExtTreeMap Text PropagationCheck) :=
  match e.readSelf with
  | .error message => .error ("cannot read /proc/self/mountinfo: " ++ message)
  | .ok mounts =>
    let targets := propagationTargets runtime
    let slaveGroups := (targets.filter fun t => (e.rootPropagation mounts t.2).isSlave).map Prod.fst
    if slaveGroups ≠ [] ∧ allowSlave = false then
      .error ("target roots of groups " ++ ", ".intercalate (slaveGroups.map String.ofList) ++
        " are slave mounts, so mounts would not propagate back to the host; refusing to start (is byssusd in a private mount namespace? Use --allow-slave-namespace to override)")
    else .ok (targets.foldl (fun results t =>
      results.insert t.1 (e.rootPropagation mounts t.2)) ∅)

/-- What a reload is answered where a check is answered `e`; the new inotify instance can be
registered. -/
def CheckEnv.reloadAnswers (e : CheckEnv H K) (options : LoadOptions) (allowSlave : Bool)
    (elapsed : ℕ) : ReloadAnswers H K where
  load := e.load
  openEnv := e.openEnv
  propagation :=
    match (Byssus.load e.load options).toOption.bind fun loaded =>
        (Runtime.open e.openEnv loaded.config).toOption with
    | none => none
    | some runtime =>
      match checkPropagation e runtime allowSlave with
      | .error message => some message
      | .ok _ => none
  inotify := e.inotify
  swap := none
  elapsed := elapsed

/-! ### The check -/

/-- `Issue`, as displayed. -/
def Issue.display (i : Issue) : String :=
  (i.file.map fun file => file.display ++ ": ").getD "" ++
    (i.group.map fun group => "group '" ++ String.ofList group ++ "': ").getD "" ++ i.message

/-- `OpenGroupError`, as displayed. -/
def OpenGroupError.display (strerror : Errno → String) (e : OpenGroupError) : String :=
  let subject := match e.subject with
    | .group group => "group '" ++ String.ofList group.display ++ "'"
    | .set set => "group set '" ++ String.ofList set.text ++ "'"
  subject ++ ": cannot open " ++ e.field ++ " " ++ displayPath e.path ++ ": " ++ strerror e.source

/-- Result of `byssus check`. -/
structure CheckReport where
  valid : Bool
  checkedAsUid : Option ℕ
  files : List String
  groups : List Text
  errors : List String
  warnings : List String

/-- `ROOT_WITHOUT_USER_WARNING`. -/
def rootWithoutUserWarning : String :=
  "checks ran as root because daemon.user is not set, so access problems for the daemon's service user (for example an unreadable membership or source directory) are not detected; set daemon.user = \"byssus\" in the main configuration"

namespace CheckReport

def empty : CheckReport := ⟨false,none,[],[],[],[]⟩

def error (report : CheckReport) (message : String) : CheckReport :=
  {report with errors := report.errors++[message]}

def warning (report : CheckReport) (message : String) : CheckReport :=
  {report with warnings := report.warnings++[message]}

def addIssue (report : CheckReport) (i : Issue) : CheckReport :=
  match i.severity with
  | .error => report.error i.display
  | .warning => report.warning i.display

/-- One note in `report_discovery`. -/
def addNote (report : CheckReport) : Note → CheckReport
  | .setRootDeleted set =>
    report.error ("group set '" ++ String.ofList set.text ++ "': membership root has been deleted")
  | .setRootUnreadable set error => report.error
      ("group set '" ++ String.ofList set.text ++ "': cannot read membership root: " ++ error)
  | .membershipUnreadable group error => report.warning
      ("group '" ++ String.ofList group.display ++ "': cannot open membership directory: " ++ error)
  | .setEntryRejected set rejection => report.warning
      ("group set '" ++ String.ofList set.text ++ "': entry '" ++
        String.ofList rejection.displayName ++ "' rejected: " ++ rejection.reason.message)
  | _ => report

/-- One target root, and how its mount propagates. -/
def addTarget (allowSlave : Bool) (report : CheckReport) (target : Text × AbsPath)
    (propagation : PropagationCheck) : CheckReport :=
  let message := "group '" ++ String.ofList target.1 ++ "': target root " ++ displayPath target.2 ++
    " is " ++ propagation.describe
  match propagation with
  | .shared => report
  | propagation =>
    if propagation.isSlave && !allowSlave then report.error message else report.warning message

/-- `finish`. -/
def finish (report : CheckReport) : CheckReport := {report with valid := report.errors.isEmpty}

end CheckReport

/-- The end of `check`, with everything open. -/
def checkOpened (sys : InotifySys K) (e : CheckEnv H K) (allowSlave : Bool) (runtime : Runtime H)
    (report : CheckReport) : Except String CheckReport :=
  let report := match (Watcher.new sys runtime e.inotify).1 with
    | .error message => report.error message
    | .ok _ => report
  let (runtime,discovery) := runtime.discover e.scan ∅
  let report := discovery.notes.foldl CheckReport.addNote report
  match e.readSelf with
  | .error message => .error ("cannot read /proc/self/mountinfo: " ++ message)
  | .ok mounts => .ok ((propagationTargets runtime).foldl (fun report target =>
      report.addTarget allowSlave target (e.rootPropagation mounts target.2)) report).finish

/-- `check`; it succeeds iff the report is valid. -/
def check (sys : InotifySys K) (e : CheckEnv H K) (options : LoadOptions) (allowSlave : Bool) :
    Except String CheckReport :=
  match load e.load options with
  | .error issues => .ok (issues.foldl CheckReport.addIssue .empty).finish
  | .ok loaded =>
    let config := loaded.config
    match e.dropToServiceUser config.daemon.user with
    | .error message => .error ("cannot drop privileges for checking: " ++ message)
    | .ok uid =>
      let report : CheckReport := {
        valid := false
        checkedAsUid := some uid
        files := config.files.map PathBuf.display
        groups := config.groups.keys.map Name.text++
          config.groupSets.keys.map fun name => setLabel name.text
        errors := []
        warnings := loaded.warnings.map Issue.display++
          if uid = 0 then [rootWithoutUserWarning] else [] }
      let report := (checkPathsExist e.load config).foldl CheckReport.addIssue report
      if report.errors ≠ [] then .ok report.finish
      else match Runtime.open e.openEnv config with
        | .error failure => .ok (report.error (failure.display e.scan.strerror)).finish
        | .ok runtime => checkOpened sys e allowSlave runtime report

/-! ### When a report is valid -/

namespace CheckReport

theorem errors_addIssue (report : CheckReport) (i : Issue) :
    (report.addIssue i).errors ≠ [] ↔ report.errors ≠ [] ∨ i.severity = .error := by
  unfold addIssue
  cases i.severity <;> simp [error,warning]

theorem errors_addIssues (issues : Issues) (report : CheckReport) :
    (issues.foldl addIssue report).errors ≠ [] ↔
      report.errors ≠ [] ∨ hasErrors issues = true := by
  have h := Lists.foldl_or_iff (Q := fun r : CheckReport => r.errors ≠ []) errors_addIssue issues
    report
  simpa [hasErrors] using h

/-- The notes that are errors. -/
def RootLost (n : Note) : Prop := ∃ set, n = .setRootDeleted set ∨ ∃ e, n = .setRootUnreadable set e

theorem errors_addNote (report : CheckReport) (n : Note) :
    (report.addNote n).errors ≠ [] ↔ report.errors ≠ [] ∨ RootLost n := by
  cases n <;> simp [addNote,RootLost,error,warning]

theorem errors_addTarget (allowSlave : Bool) (report : CheckReport) (target : Text × AbsPath)
    (propagation : PropagationCheck) :
    (report.addTarget allowSlave target propagation).errors ≠ [] ↔
      report.errors ≠ [] ∨ (propagation.isSlave = true ∧ allowSlave = false) := by
  cases propagation <;> cases allowSlave <;> simp [addTarget,PropagationCheck.isSlave,error,warning]

theorem errors_addNotes (notes : List Note) (report : CheckReport) :
    (notes.foldl addNote report).errors ≠ [] ↔ report.errors ≠ [] ∨ ∃ n ∈ notes, RootLost n :=
  Lists.foldl_or_iff (Q := fun r : CheckReport => r.errors ≠ []) errors_addNote notes report

theorem errors_addTargets (allowSlave : Bool) (propagation : AbsPath → PropagationCheck)
    (targets : List (Text × AbsPath)) (report : CheckReport) :
    (targets.foldl (fun r t => r.addTarget allowSlave t (propagation t.2)) report).errors ≠ [] ↔
      report.errors ≠ [] ∨
        ∃ t ∈ targets, (propagation t.2).isSlave = true ∧ allowSlave = false :=
  Lists.foldl_or_iff (Q := fun r : CheckReport => r.errors ≠ [])
    (fun r t => errors_addTarget allowSlave r t (propagation t.2)) targets report

theorem finish_valid (report : CheckReport) : report.finish.valid = true ↔ ¬report.errors ≠ [] := by
  simp [finish]

end CheckReport

/-- A set whose root cannot be scanned gives the only notes that are errors. -/
theorem rootLost_iff {scan : ScanEnv H} {runtime : Runtime H} :
    (∃ n ∈ (runtime.discover scan ∅).2.notes, CheckReport.RootLost n) ↔
      ∃ (name : Name) (set : SetRuntime H), runtime.sets[name]? = some set ∧
        ¬scan.Scannable set := by
  constructor
  · rintro ⟨n,hn,set,hlost⟩
    obtain ⟨name,s,hs,-,hmem⟩ := mem_discovery_notes.mp hn
    refine ⟨name,s,hs,?_⟩
    rcases setNotes_cases hmem with ⟨-,⟨_,_,_,_,_,_,_,_,rfl⟩ | ⟨_,_,_,rfl⟩⟩ | ⟨hno,-⟩
    · rcases hlost with hlost | ⟨e,hlost⟩ <;> cases hlost
    · rcases hlost with hlost | ⟨e,hlost⟩ <;> cases hlost
    · exact hno
  · rintro ⟨name,s,hs,hno⟩
    have hnote : ∃ n ∈ setNotes scan s, CheckReport.RootLost n := by
      obtain ⟨n,hn,-⟩ := setNotes_of_not_scannable hno
      rcases setNotes_cases hn with ⟨hsc,-⟩ | ⟨-,hlost⟩
      · exact absurd hsc hno
      · exact ⟨n,hn,s.config.name,hlost⟩
    obtain ⟨n,hn,hlost⟩ := hnote
    exact ⟨n,mem_discovery_notes.mpr ⟨name,s,hs,by simp,hn⟩,hlost⟩

/-! ### The target roots of a configuration -/

/-- The labels and target roots that a configuration declares. -/
def Config.TargetOf (config : Config) (t : Text × AbsPath) : Prop :=
  (∃ name : Name, config.groups[name]?.map (fun g => (g.name.display,g.targetRoot)) = some t) ∨
    ∃ name : Name,
      config.groupSets[name]?.map (fun set => (setLabel set.name.text,set.targetRoot)) = some t

namespace Runtime.Opens

variable {runtime : Runtime H} {config : Config}

/-- A group of no set is a static one. -/
theorem static_id (h : runtime.Opens config) (hk : config.Keyed) {id : GroupId}
    {g : GroupRuntime H} (hg : runtime.groups[id]? = some g) (hid : id.set = none) :
    ∃ name, id = .statically name := by
  have hname := runtime.groups_keyed id g hg
  cases h.declared id g hg with
  | static hc => exact ⟨_,by rw [← hname,hk.groups _ _ hc]⟩
  | found hset hmade =>
    rw [← hname,(GroupSetConfig.group_ok hmade).2.2.1] at hid
    cases hid

theorem mem_propagationTargets (h : runtime.Opens config) (hk : config.Keyed)
    {t : Text × AbsPath} : t ∈ propagationTargets runtime ↔ config.TargetOf t := by
  unfold propagationTargets Config.TargetOf
  rw [List.mem_append,List.mem_map,List.mem_map]
  refine or_congr ?_ ?_
  · constructor
    · rintro ⟨g,hg,rfl⟩
      obtain ⟨hmem,hnone⟩ := List.mem_filter.mp hg
      obtain ⟨id,hid⟩ := Maps.mem_values.mp hmem
      have hname := runtime.groups_keyed id g hid
      rw [hname,Option.isNone_iff_eq_none] at hnone
      obtain ⟨name,rfl⟩ := h.static_id hk hid hnone
      refine ⟨name,?_⟩
      rw [← h.groups name,hid]
      rfl
    · rintro ⟨name,hname⟩
      rw [← h.groups name] at hname
      cases hg : runtime.groups[GroupId.statically name]? with
      | none => simp [hg] at hname
      | some g =>
        rw [hg] at hname
        cases hname
        refine ⟨g,List.mem_filter.mpr ⟨Maps.mem_values.mpr ⟨_,hg⟩,?_⟩,rfl⟩
        rw [runtime.groups_keyed _ g hg]
        rfl
  · constructor
    · rintro ⟨set,hset,rfl⟩
      obtain ⟨name,hname⟩ := Maps.mem_values.mp hset
      refine ⟨name,?_⟩
      rw [← h.sets name,hname]
      rfl
    · rintro ⟨name,hname⟩
      rw [← h.sets name] at hname
      cases hset : runtime.sets[name]? with
      | none => simp [hset] at hname
      | some set =>
        rw [hset] at hname
        cases hname
        exact ⟨set,Maps.mem_values.mpr ⟨_,hset⟩,rfl⟩

end Runtime.Opens

/-- No target root is a slave mount that is not allowed. -/
def CheckEnv.Propagates (e : CheckEnv H K) (config : Config) (allowSlave : Bool) : Prop :=
  ∃ mounts, e.readSelf = .ok mounts ∧ ∀ t, config.TargetOf t →
    (e.rootPropagation mounts t.2).isSlave = true → allowSlave = true

theorem checkPropagation_ok_iff {e : CheckEnv H K} {runtime : Runtime H} {config : Config}
    (h : runtime.Opens config) (hk : config.Keyed) {allowSlave : Bool} :
    (∃ results, checkPropagation e runtime allowSlave = .ok results) ↔
      e.Propagates config allowSlave := by
  unfold checkPropagation CheckEnv.Propagates
  cases hr : e.readSelf with
  | error message => simp
  | ok mounts =>
    have hslaves : ((propagationTargets runtime).filter fun t =>
        (e.rootPropagation mounts t.2).isSlave).map Prod.fst ≠ [] ↔
          ∃ t, config.TargetOf t ∧ (e.rootPropagation mounts t.2).isSlave = true := by
      simp [← h.mem_propagationTargets hk]
    by_cases hbad : ((propagationTargets runtime).filter fun t =>
        (e.rootPropagation mounts t.2).isSlave).map Prod.fst ≠ [] ∧ allowSlave = false
    · obtain ⟨t,ht,hslave⟩ := hslaves.mp hbad.1
      simp only [if_pos hbad,reduceCtorEq,exists_false,Except.ok.injEq,exists_eq_left',false_iff]
      intro hall
      have hallow := hall t ht hslave
      rw [hbad.2] at hallow
      cases hallow
    · simp only [if_neg hbad,Except.ok.injEq,exists_eq',exists_eq_left',true_iff]
      intro t ht hslave
      by_contra hallow
      exact hbad ⟨hslaves.mpr ⟨t,ht,hslave⟩,by simpa using hallow⟩

/-! ### What a check and a reload require -/

/-- The directories of a group or set can be opened. -/
def OpenEnv.OpensDirs (env : OpenEnv H) (sourceRoot targetRoot membership : AbsPath) : Prop :=
  env.openRoot sourceRoot = .ok () ∧ env.openRoot targetRoot = .ok () ∧
    ∃ dir, env.openDirForReading membership = .ok dir

/-- Every directory that the configuration names can be opened. -/
structure OpenEnv.OpensAll (env : OpenEnv H) (config : Config) : Prop where
  groups : ∀ g ∈ Maps.values config.groups,
    env.OpensDirs g.sourceRoot g.targetRoot g.membership
  sets : ∀ set ∈ Maps.values config.groupSets,
    env.OpensDirs set.sourceRoot set.targetRoot set.membershipRoot

theorem openDirs_ok_iff (env : OpenEnv H) (subject : Subject) (sourceRoot targetRoot : AbsPath)
    (field : String) (membership : AbsPath) :
    (∃ dir, openDirs env subject sourceRoot targetRoot field membership = .ok dir) ↔
      env.OpensDirs sourceRoot targetRoot membership := by
  unfold openDirs OpenEnv.OpensDirs
  cases env.openRoot sourceRoot with
  | error e => simp [Except.mapError,bind,Except.bind]
  | ok _ =>
    cases env.openRoot targetRoot with
    | error e => simp [Except.mapError,bind,Except.bind]
    | ok _ => cases env.openDirForReading membership <;> simp [Except.mapError,bind,Except.bind]

theorem openGroup_ok_iff (env : OpenEnv H) (runtime : Runtime H) (g : GroupConfig) :
    (∃ runtime', openGroup env g runtime = .ok runtime') ↔
      env.OpensDirs g.sourceRoot g.targetRoot g.membership := by
  rw [← openDirs_ok_iff env (.group g.name) _ _ "membership",openGroup]
  cases openDirs env (.group g.name) g.sourceRoot g.targetRoot "membership" g.membership <;>
    simp [bind,Except.bind,pure,Except.pure]

theorem openSet_ok_iff (env : OpenEnv H) (runtime : Runtime H) (set : GroupSetConfig) :
    (∃ runtime', openSet env set runtime = .ok runtime') ↔
      env.OpensDirs set.sourceRoot set.targetRoot set.membershipRoot := by
  rw [← openDirs_ok_iff env (.set set.name) _ _ "membership_root",openSet]
  cases openDirs env (.set set.name) set.sourceRoot set.targetRoot "membership_root"
    set.membershipRoot <;> simp [bind,Except.bind,pure,Except.pure]

theorem open_ok_iff {env : OpenEnv H} {config : Config} :
    (∃ runtime, Runtime.open env config = .ok runtime) ↔ env.OpensAll config := by
  have hvalues : ∀ {α : Type} (m : ExtTreeMap Name α) (P : α → Prop),
      (∀ entry ∈ m.toList, P entry.2) ↔ ∀ a ∈ Maps.values m, P a :=
    fun _ _ => List.forall_mem_map.symm
  have hgroups := (Program.foldlM_ok_iff (fun rt entry => openGroup_ok_iff env rt entry.2)
    config.groups.toList Runtime.empty).trans (hvalues _ fun g => env.OpensDirs g.sourceRoot
      g.targetRoot g.membership)
  have hsets := fun start => (Program.foldlM_ok_iff (fun rt entry => openSet_ok_iff env rt entry.2)
    config.groupSets.toList start).trans (hvalues _ fun set => env.OpensDirs set.sourceRoot
      set.targetRoot set.membershipRoot)
  unfold Runtime.open
  cases hstart : config.groups.toList.foldlM (fun rt entry => openGroup env entry.2 rt)
      Runtime.empty with
  | error e =>
    rw [hstart] at hgroups
    refine iff_of_false (by simp [bind,Except.bind]) fun hall => ?_
    obtain ⟨c,hc⟩ := hgroups.mpr hall.groups
    cases hc
  | ok start =>
    rw [hstart] at hgroups
    have hall := hgroups.mp ⟨start,rfl⟩
    exact (hsets start).trans ⟨fun h => ⟨hall,h⟩,OpenEnv.OpensAll.sets⟩

/-- What a reload requires of a configuration that keeps the state directory. -/
structure CheckEnv.Accepts (sys : InotifySys K) (e : CheckEnv H K) (allowSlave : Bool)
    (config : Config) (runtime : Runtime H) : Prop where
  paths : hasErrors (checkPathsExist e.load config) = false
  opened : Runtime.open e.openEnv config = .ok runtime
  watched : ∃ watcher, (Watcher.new sys runtime e.inotify).1 = .ok watcher
  propagates : e.Propagates config allowSlave

/-- Every membership root can be scanned. -/
def CheckEnv.ScansRoots (e : CheckEnv H K) (runtime : Runtime H) : Prop :=
  ∀ (name : Name) (set : SetRuntime H), runtime.sets[name]? = some set → e.scan.Scannable set

theorem checkOpened_valid_iff {sys : InotifySys K} {e : CheckEnv H K} {allowSlave : Bool}
    {config : Config} {runtime : Runtime H} (hopens : runtime.Opens config) (hk : config.Keyed)
    {start report : CheckReport} (hstart : ¬start.errors ≠ [])
    (h : checkOpened sys e allowSlave runtime start = .ok report) :
    report.valid = true ↔ (∃ watcher, (Watcher.new sys runtime e.inotify).1 = .ok watcher) ∧
      e.Propagates config allowSlave ∧ e.ScansRoots runtime := by
  have htargets : ∀ t, t ∈ propagationTargets (runtime.discover e.scan ∅).1 ↔
      config.TargetOf t := fun t => (hopens.discover e.scan ∅).mem_propagationTargets hk
  have hroots : ¬e.ScansRoots runtime ↔
      ∃ n ∈ (runtime.discover e.scan ∅).2.notes, CheckReport.RootLost n := by
    rw [rootLost_iff]
    simp [CheckEnv.ScansRoots]
  unfold checkOpened at h
  unfold CheckEnv.Propagates
  cases hr : e.readSelf with
  | error message => simp [hr] at h
  | ok mounts =>
    simp only [hr,Except.ok.injEq] at h
    subst h
    rw [CheckReport.finish_valid,CheckReport.errors_addTargets,CheckReport.errors_addNotes,← hroots]
    have hwatched : (match (Watcher.new sys runtime e.inotify).1 with
        | .error message => start.error message
        | .ok _ => start).errors ≠ [] ↔
          ¬∃ watcher, (Watcher.new sys runtime e.inotify).1 = .ok watcher := by
      cases (Watcher.new sys runtime e.inotify).1 with
      | error message => simp [CheckReport.error]
      | ok watcher => simpa using hstart
    have hslave : (∃ t ∈ propagationTargets (runtime.discover e.scan ∅).1,
        (e.rootPropagation mounts t.2).isSlave = true ∧ allowSlave = false) ↔
          ¬∀ t, config.TargetOf t → (e.rootPropagation mounts t.2).isSlave = true →
            allowSlave = true := by
      simp only [htargets,not_forall,Bool.not_eq_true,exists_prop]
    rw [hwatched,hslave]
    simp only [Except.ok.injEq,exists_eq_left']
    tauto

theorem finishLoad_error {config : Config} {found issues : Issues}
    (h : finishLoad config found = .error issues) : hasErrors issues = true := by
  unfold finishLoad at h
  split_ifs at h with herr
  cases h
  exact herr

/-- When a check succeeds. -/
theorem check_valid_iff {sys : InotifySys K} {e : CheckEnv H K} {options : LoadOptions}
    {allowSlave : Bool} {report : CheckReport} (h : check sys e options allowSlave = .ok report) :
    report.valid = true ↔ ∃ loaded runtime, load e.load options = .ok loaded ∧
      e.Accepts sys allowSlave loaded.config runtime ∧ e.ScansRoots runtime := by
  unfold check at h
  cases hl : load e.load options with
  | error issues =>
    simp only [hl,Except.ok.injEq] at h
    subst h
    rw [CheckReport.finish_valid,CheckReport.errors_addIssues,finishLoad_error hl]
    simp
  | ok loaded =>
    simp only [hl] at h
    cases hu : e.dropToServiceUser loaded.config.daemon.user with
    | error message => simp [hu] at h
    | ok uid =>
      simp only [hu] at h
      generalize hstart : CheckReport.mk false (some uid) _ _ [] _ = start at h
      have hissues := CheckReport.errors_addIssues (checkPathsExist e.load loaded.config) start
      have hnone : ¬start.errors ≠ [] := by simp [← hstart]
      generalize (checkPathsExist e.load loaded.config).foldl CheckReport.addIssue start = report'
        at h hissues
      simp only [hnone,false_or] at hissues
      by_cases hpaths : report'.errors ≠ []
      · simp only [if_pos hpaths,Except.ok.injEq] at h
        subst h
        rw [CheckReport.finish_valid]
        refine iff_of_false (fun hno => hno hpaths) ?_
        rintro ⟨loaded',runtime,heq,haccepts,-⟩
        cases heq
        rw [haccepts.paths] at hissues
        exact absurd (hissues.mp hpaths) (by simp)
      · have hclean : hasErrors (checkPathsExist e.load loaded.config) = false := by
          simpa [hpaths] using hissues
        simp only [if_neg hpaths] at h
        cases ho : Runtime.open e.openEnv loaded.config with
        | error failure =>
          simp only [ho,Except.ok.injEq] at h
          subst h
          rw [CheckReport.finish_valid]
          refine iff_of_false (by simp [CheckReport.error]) ?_
          rintro ⟨loaded',runtime,heq,haccepts,-⟩
          cases heq
          have hopen := haccepts.opened
          rw [ho] at hopen
          cases hopen
        | ok runtime =>
          simp only [ho] at h
          have hk := load_keyed hl
          rw [checkOpened_valid_iff (open_opens hk ho) hk hpaths h]
          constructor
          · rintro ⟨hwatched,hpropagates,hroots⟩
            exact ⟨loaded,runtime,rfl,⟨hclean,ho,hwatched,hpropagates⟩,hroots⟩
          · rintro ⟨loaded',runtime',heq,haccepts,hroots⟩
            cases heq
            have hopen := haccepts.opened
            rw [ho] at hopen
            cases hopen
            exact ⟨haccepts.watched,haccepts.propagates,hroots⟩

/-- When a reload that can put its watcher in place succeeds. -/
theorem reload_applied_iff {sys : InotifySys K} {e : CheckEnv H K} {d : Daemon H D}
    {allowSlave : Bool} {elapsed : ℕ} :
    (d.reload sys (e.reloadAnswers d.options allowSlave elapsed)).2 = true ↔
      ∃ loaded runtime, load e.load d.options = .ok loaded ∧
        loaded.config.daemon.stateDir = d.config.daemon.stateDir ∧
        e.Accepts sys allowSlave loaded.config runtime := by
  have hprepared : (d.reload sys (e.reloadAnswers d.options allowSlave elapsed)).2 = true ↔
      ∃ ready, d.prepareReload sys (e.reloadAnswers d.options allowSlave elapsed) = .ok ready := by
    unfold Daemon.reload
    cases d.prepareReload sys (e.reloadAnswers d.options allowSlave elapsed) <;>
      simp [CheckEnv.reloadAnswers]
  rw [hprepared]
  unfold Daemon.prepareReload CheckEnv.reloadAnswers
  simp only
  cases hl : load e.load d.options with
  | error issues => simp [Except.mapError,bind,Except.bind]
  | ok loaded =>
    have hk := load_keyed hl
    simp only [Except.mapError,bind,Except.bind,Except.toOption,Option.bind_some,Except.ok.injEq,
      exists_and_left,exists_eq_left']
    by_cases hstate : loaded.config.daemon.stateDir = d.config.daemon.stateDir
    · cases hpaths : hasErrors (checkPathsExist e.load loaded.config) with
      | true =>
        refine iff_of_false (by simp [hstate]) ?_
        rintro ⟨-,runtime,haccepts⟩
        rw [haccepts.paths] at hpaths
        cases hpaths
      | false =>
        cases ho : Runtime.open e.openEnv loaded.config with
        | error failure =>
          refine iff_of_false (by simp [hstate]) ?_
          rintro ⟨-,runtime,haccepts⟩
          have hopen := haccepts.opened
          rw [ho] at hopen
          cases hopen
        | ok runtime =>
          have hpropagates : (∃ results, checkPropagation e runtime allowSlave = .ok results) ↔
              e.Propagates loaded.config allowSlave := checkPropagation_ok_iff (open_opens hk ho) hk
          have haccepts : (∃ runtime', e.Accepts sys allowSlave loaded.config runtime') ↔
              (∃ watcher, (Watcher.new sys runtime e.inotify).1 = .ok watcher) ∧
                ∃ results, checkPropagation e runtime allowSlave = .ok results := by
            rw [hpropagates]
            constructor
            · rintro ⟨runtime',haccepts⟩
              have hopen := haccepts.opened
              rw [ho] at hopen
              cases hopen
              exact ⟨haccepts.watched,haccepts.propagates⟩
            · rintro ⟨hwatched,hpropagates⟩
              exact ⟨runtime,hpaths,ho,hwatched,hpropagates⟩
          rw [haccepts]
          cases hc : checkPropagation e runtime allowSlave with
          | error message => simp [hstate,hc]
          | ok results =>
            cases hw : (Watcher.new sys runtime e.inotify).1 <;> simp [hstate,hc,hw,pure,Except.pure]
    · simp [hstate]

/-! ### Configurations that differ in the paths of their files -/

namespace Config.SameSettings

variable {c c' : Config}

theorem symm (h : c.SameSettings c') : c'.SameSettings c :=
  ⟨h.daemon.symm,fun n => (h.groups n).symm,fun n => (h.groupSets n).symm⟩

/-- What does not depend on the path of a group's file is the same for both. -/
theorem map_groups (h : c.SameSettings c') {α : Type} (f : GroupConfig → α)
    (hf : ∀ g, f g.unplaced = f g) (n : Name) : c.groups[n]?.map f = c'.groups[n]?.map f := by
  have hboth := congrArg (Option.map f) (h.groups n)
  simpa only [Option.map_map,Function.comp_def,hf] using hboth

theorem map_sets (h : c.SameSettings c') {α : Type} (f : GroupSetConfig → α)
    (hf : ∀ set, f set.unplaced = f set) (n : Name) :
    c.groupSets[n]?.map f = c'.groupSets[n]?.map f := by
  have hboth := congrArg (Option.map f) (h.groupSets n)
  simpa only [Option.map_map,Function.comp_def,hf] using hboth

theorem targetOf (h : c.SameSettings c') (t : Text × AbsPath) : c.TargetOf t ↔ c'.TargetOf t := by
  refine or_congr (exists_congr fun n => ?_) (exists_congr fun n => ?_)
  · rw [h.map_groups (fun g => (g.name.display,g.targetRoot)) (fun _ => rfl)]
  · rw [h.map_sets (fun set => (setLabel set.name.text,set.targetRoot)) (fun _ => rfl)]

theorem propagates (h : c.SameSettings c') (e : CheckEnv H K) (allowSlave : Bool) :
    e.Propagates c allowSlave ↔ e.Propagates c' allowSlave := by
  unfold CheckEnv.Propagates
  simp only [h.targetOf]

theorem opensAll (h : c.SameSettings c') {env : OpenEnv H} (hopen : env.OpensAll c) :
    env.OpensAll c' where
  groups := by
    intro g' hg'
    obtain ⟨n,hn⟩ := Maps.mem_values.mp hg'
    have hdirs := h.map_groups (fun g => (g.sourceRoot,g.targetRoot,g.membership)) (fun _ => rfl) n
    rw [hn] at hdirs
    obtain ⟨g,hg,heq⟩ := Option.map_eq_some_iff.mp hdirs
    simp only [Prod.mk.injEq] at heq
    rw [← heq.1,← heq.2.1,← heq.2.2]
    exact hopen.groups g (Maps.mem_values.mpr ⟨n,hg⟩)
  sets := by
    intro set' hset'
    obtain ⟨n,hn⟩ := Maps.mem_values.mp hset'
    have hdirs := h.map_sets (fun set => (set.sourceRoot,set.targetRoot,set.membershipRoot))
      (fun _ => rfl) n
    rw [hn] at hdirs
    obtain ⟨set,hset,heq⟩ := Option.map_eq_some_iff.mp hdirs
    simp only [Prod.mk.injEq] at heq
    rw [← heq.1,← heq.2.1,← heq.2.2]
    exact hopen.sets set (Maps.mem_values.mpr ⟨n,hset⟩)

/-- What is opened for the one is watched as what is opened for the other. -/
theorem configured (h : c.SameSettings c') (hk : c.Keyed) (hk' : c'.Keyed)
    {runtime runtime' : Runtime H} (hopens : runtime.Opens c) (hopens' : runtime'.Opens c') :
    Byssus.configured runtime = Byssus.configured runtime' := by
  have hgroups : (runtime.groups.filter fun id _ => id.set.isNone).map (fun _ g =>
      g.config.membership) = (runtime'.groups.filter fun id _ => id.set.isNone).map fun _ g =>
        g.config.membership := by
    apply ExtTreeMap.ext_getElem?
    intro id
    rw [ExtTreeMap.getElem?_map,ExtTreeMap.getElem?_map,ExtTreeMap.getElem?_filter',
      ExtTreeMap.getElem?_filter']
    by_cases hstatic : ∃ name, id = .statically name
    · obtain ⟨name,rfl⟩ := hstatic
      have hdirs := h.map_groups GroupConfig.membership (fun _ => rfl) name
      rw [← hopens.groups name,← hopens'.groups name] at hdirs
      have hkept : ∀ o : Option (GroupRuntime H),
          o.filter (fun _ => (GroupId.statically name).set.isNone) = o := by
        intro o
        cases o <;> rfl
      rw [hkept,hkept]
      simpa [Function.comp_def] using hdirs
    · have hnone : ∀ {rt : Runtime H} {config : Config}, rt.Opens config → config.Keyed →
          rt.groups[id]?.filter (fun _ => id.set.isNone) = none := by
        intro rt config hrt hkeyed
        rw [Option.filter_eq_none_iff]
        intro g hg hid
        exact hstatic (hrt.static_id hkeyed hg (Option.isNone_iff_eq_none.mp hid))
      rw [hnone hopens hk,hnone hopens' hk']
  have hsets : runtime.sets.map (fun _ set => set.config.membershipRoot) =
      runtime'.sets.map fun _ set => set.config.membershipRoot := by
    apply ExtTreeMap.ext_getElem?
    intro n
    have hroots := h.map_sets GroupSetConfig.membershipRoot (fun _ => rfl) n
    rw [← hopens.sets n,← hopens'.sets n] at hroots
    simpa [Function.comp_def] using hroots
  have hgroups := congrArg (fun m => m.toList.map fun e : GroupId × AbsPath =>
    (Watched.group e.1,e.2)) hgroups
  have hsets := congrArg (fun m => m.toList.map fun e : Name × AbsPath =>
    (Watched.setRoot e.1,e.2)) hsets
  simp only [ExtTreeMap.toList_map,ExtTreeMap.toList_filter,List.map_map,Function.comp_def]
    at hgroups hsets
  unfold Byssus.configured
  rw [hgroups,hsets]

end Config.SameSettings

/-- What is watched decides whether watching succeeds. -/
theorem watched_iff {sys : InotifySys K} {runtime runtime' : Runtime H}
    (h : configured runtime = configured runtime') (k : K) :
    (∃ watcher, (Watcher.new sys runtime k).1 = .ok watcher) ↔
      ∃ watcher, (Watcher.new sys runtime' k).1 = .ok watcher := by
  have hroots : ∀ rt : Runtime H, Watcher.watchRoots sys rt k = (configured rt).foldl
      (fun acc entry => Watcher.watchConfigured sys (Watcher.rootMessage sys entry) entry.2 entry.1 acc)
        (.ok .empty,k) := by
    intro rt
    unfold Watcher.watchRoots configured
    rw [List.foldl_append,List.foldl_map,List.foldl_map]
    rfl
  have hnew : ∀ rt : Runtime H, (∃ watcher, (Watcher.new sys rt k).1 = .ok watcher) ↔
      ∃ watcher, (Watcher.watchRoots sys rt k).1 = .ok watcher := by
    intro rt
    unfold Watcher.new
    cases hw : Watcher.watchRoots sys rt k with
    | mk out k' => cases out <;> simp
  rw [hnew,hnew,hroots,hroots,h]

/-- Settings that are the same are accepted alike. -/
theorem CheckEnv.Accepts.of_sameSettings {sys : InotifySys K} {e : CheckEnv H K}
    {allowSlave : Bool} {c c' : Config} {runtime : Runtime H}
    (h : e.Accepts sys allowSlave c runtime) (hsame : c.SameSettings c') (hk : c.Keyed)
    (hk' : c'.Keyed) {env : LoadEnv}
    (hd : ∀ path ∈ c.directories, env.accepts path = e.load.accepts path) :
    ∃ runtime', ({e with load := env} : CheckEnv H K).Accepts sys allowSlave c' runtime' := by
  obtain ⟨runtime',hopen⟩ := open_ok_iff.mpr (hsame.opensAll (open_ok_iff.mp ⟨runtime,h.opened⟩))
  have hconfigured := hsame.configured hk hk' (open_opens hk h.opened) (open_opens hk' hopen)
  refine ⟨runtime',?_,hopen,(watched_iff hconfigured e.inotify).mp h.watched,?_⟩
  · rw [← hsame.pathsExist hd]
    exact h.paths
  · exact (hsame.propagates _ allowSlave).mp h.propagates

/-! ### Checks and reloads -/

/-- What a reload may find after a check: the files that were checked, or the candidates
installed, where what is not changed comes to the same. -/
inductive Committed (env : LoadEnv) (options : LoadOptions) : LoadEnv → Prop
  | unchanged (h : options.fragmentChanges = ⟨[],[]⟩) : Committed env options env
  | installed {env' : LoadEnv} (i : Installation env env' options) (hs : i.Steady) :
    Committed env options env'

namespace Committed

variable {env env' : LoadEnv} {options : LoadOptions}

theorem accepts (h : Committed env options env') {loaded : Loaded}
    (hl : load env options = .ok loaded) :
    ∀ path ∈ loaded.config.directories, env'.accepts path = env.accepts path := by
  cases h with
  | unchanged _ => exact fun _ _ => rfl
  | installed i hs =>
    rw [(load_ok hl).1]
    exact hs.directories

theorem predicts (h : Committed env options env') (hutf : options.fragmentChanges.Utf8) :
    Predicts (load env options) (load env' options.reload) := by
  cases h with
  | unchanged hnone =>
    have hsame : options.reload = options := by
      obtain ⟨_,_,_,_,_,_,_,_⟩ := options
      cases hnone
      rfl
    rw [hsame]
    refine ⟨Iff.rfl,fun loaded loaded' hl hl' => ?_⟩
    rw [hl] at hl'
    cases hl'
    exact ⟨rfl,fun _ => rfl,fun _ => rfl⟩
  | installed i hs => exact hs.predicts hutf

end Committed

/-- A check is valid exactly if a daemon with that state directory would then reload, and every
membership root can be scanned; candidates must have UTF-8 names.  The reload puts the settings in
place that were checked. -/
theorem check_predicts_reload {sys : InotifySys K} {e : CheckEnv H K} {options : LoadOptions}
    {env : LoadEnv} (hcommitted : Committed e.load options env) {allowSlave : Bool}
    {report : CheckReport} (h : check sys e options allowSlave = .ok report) {d : Daemon H D}
    (hd : d.options = options.reload) (elapsed : ℕ) :
    let answers := ({e with load := env} : CheckEnv H K).reloadAnswers d.options allowSlave elapsed
    ((report.valid = true ∧ ∀ loaded, load e.load options = .ok loaded →
        loaded.config.daemon.stateDir = d.config.daemon.stateDir) ↔
      options.fragmentChanges.Utf8 ∧ (d.reload sys answers).2 = true ∧
        ∀ loaded runtime, load e.load options = .ok loaded →
          Runtime.open e.openEnv loaded.config = .ok runtime → e.ScansRoots runtime) ∧
    (options.fragmentChanges.Utf8 → (d.reload sys answers).2 = true →
      ∃ loaded, load e.load options = .ok loaded ∧
        loaded.config.SameSettings (d.reload sys answers).1.config) := by
  intro answers
  have happlied : (d.reload sys answers).2 = true ↔ ∃ loaded runtime,
      load env options.reload = .ok loaded ∧
        loaded.config.daemon.stateDir = d.config.daemon.stateDir ∧
        ({e with load := env} : CheckEnv H K).Accepts sys allowSlave loaded.config runtime := by
    rw [← hd]
    exact reload_applied_iff
  refine ⟨?_,fun hutf happly => ?_⟩
  · rw [check_valid_iff h,happlied]
    constructor
    · rintro ⟨⟨loaded,runtime,hl,haccepts,hroots⟩,hstate⟩
      have hutf : options.fragmentChanges.Utf8 := by
        by_contra hno
        exact check_fails e.load hno ⟨loaded,hl⟩
      have hpredicts := hcommitted.predicts hutf
      obtain ⟨loaded',hl'⟩ := hpredicts.1.mp ⟨loaded,hl⟩
      have hsame := hpredicts.2 loaded loaded' hl hl'
      obtain ⟨runtime',haccepts'⟩ := haccepts.of_sameSettings hsame (load_keyed hl)
        (load_keyed hl') (hcommitted.accepts hl)
      refine ⟨hutf,⟨loaded',runtime',hl',?_,haccepts'⟩,fun loaded₂ runtime₂ hl₂ hopen₂ => ?_⟩
      · rw [← hsame.daemon]
        exact hstate loaded hl
      · cases hl.symm.trans hl₂
        cases haccepts.opened.symm.trans hopen₂
        exact hroots
    · rintro ⟨hutf,⟨loaded',runtime',hl',hstate,haccepts'⟩,hroots⟩
      have hpredicts := hcommitted.predicts hutf
      obtain ⟨loaded,hl⟩ := hpredicts.1.mpr ⟨loaded',hl'⟩
      have hsame := hpredicts.2 loaded loaded' hl hl'
      have hd : ∀ path ∈ loaded'.config.directories, e.load.accepts path = env.accepts path := by
        rw [← hsame.directories]
        exact fun path hp => (hcommitted.accepts hl path hp).symm
      obtain ⟨runtime,haccepts⟩ := haccepts'.of_sameSettings hsame.symm (load_keyed hl')
        (load_keyed hl) hd
      refine ⟨⟨loaded,runtime,hl,haccepts,hroots loaded runtime hl haccepts.opened⟩,?_⟩
      intro loaded₂ hl₂
      cases hl.symm.trans hl₂
      rw [hsame.daemon]
      exact hstate
  · rcases d.reload_cases sys answers with ⟨error,hreload⟩ | ⟨loaded',_,_,hl',-,-,hreload⟩
    · rw [hreload] at happly
      cases happly
    · have hl' : load env options.reload = .ok loaded' := by rw [← hd]; exact hl'
      have hpredicts := hcommitted.predicts hutf
      obtain ⟨loaded,hl⟩ := hpredicts.1.mpr ⟨loaded',hl'⟩
      refine ⟨loaded,hl,?_⟩
      rw [hreload]
      exact hpredicts.2 loaded loaded' hl hl'

/-! A check of a candidate and a removal by an operator whose daemon runs without groups so far. -/
namespace SampleCheck

open SampleLife (openEnv passEnv sys)
open SampleCandidate (installation options)

/-- The target roots are on a shared mount. -/
def mount : Mountinfo.MountInfo := Mountinfo.sample.info (.shared 5)

def env : CheckEnv ℕ ℕ where
  load := SampleCandidate.env ['a','b']
  dropToServiceUser := fun _ => .ok 999
  openEnv := openEnv
  scan := passEnv.toScanEnv
  inotify := 0
  readSelf := .ok [mount]
  rootMount := fun _ => .ok (some mount.mountId)

def report : CheckReport := (check sys env options false).toOption.get (by decide +kernel)

theorem check_eq : check sys env options false = .ok report :=
  Program.ok_of_toOption (Option.some_get _).symm

def daemon : Daemon ℕ Unit where
  options := options.reload
  config := .default
  runtime := .empty
  watcher := .empty
  world := ⟨fun _ => [],.empty,.empty,[]⟩
  degraded := ⟨∅,∅⟩
  uniqueSupported := true
  nextResync := none
  pending := none
  lastReloadError := none
  unreadable := ∅

/-- What the reload is answered once the candidate is installed and the fragment removed. -/
def answers : ReloadAnswers ℕ ℕ :=
  ({env with load := SampleCandidate.env ['a','c']} : CheckEnv ℕ ℕ).reloadAnswers daemon.options
    false 0

theorem check_predicts_reload_run : report.valid = true ∧
    (daemon.reload sys answers).2 = true ∧ ∃ loaded, load env.load options = .ok loaded ∧
      loaded.config.SameSettings (daemon.reload sys answers).1.config := by
  have hvalid : report.valid = true := by decide +kernel
  have hstate : ∀ l, load env.load options = .ok l →
      l.config.daemon.stateDir = daemon.config.daemon.stateDir := by
    have hload : (load env.load options).toOption.map (fun l => l.config.daemon.stateDir) =
        some daemon.config.daemon.stateDir := by decide +kernel
    intro l hl
    rw [hl] at hload
    exact Option.some.inj hload
  obtain ⟨hiff,hsame⟩ := check_predicts_reload (.installed installation SampleCandidate.steady)
    check_eq (d := daemon) rfl 0
  have happlied : (daemon.reload sys answers).2 = true := (hiff.mp ⟨hvalid,hstate⟩).2.1
  exact ⟨hvalid,happlied,hsame SampleCandidate.utf8 happlied⟩

end SampleCheck
end Byssus
