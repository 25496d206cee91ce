import Byssus.Plan
import Byssus.Runtime

/-! Gathering desired membership and kernel observations for planning. -/
namespace Byssus

/-- What the operating system answers during one pass, up to planning. -/
structure PassEnv (H : Type) extends ScanEnv H where
  /-- Why a trusted root cannot be opened. -/
  rootError : AbsPath → Option String
  /-- The directory a source location leads to. -/
  resolveDir : Location → Except String DevIno
  /-- `mount::inspect`. -/
  inspect : Location → TargetState

/-- Groups and sets whose records must be left untouched. -/
structure Degraded where
  groups : Finset GroupId
  sets : Finset Name

structure Observed where
  desired : List DesiredMount
  observations : Observations
  frozen : Finset GroupId
  members : Std.ExtTreeMap GroupId (Std.ExtTreeSet Name)
  scannedSets : Finset Name
  ignored : Std.ExtTreeMap GroupId (List Text)
  notes : List Note

variable {H : Type}

/-- `scan_membership`. -/
def scanMembership (env : ScanEnv H) (dir : H) : Except Errno Membership :=
  match env.readDir dir with
  | .error e => .error e
  | .ok (_,some e) => .error e
  | .ok (names,none) =>
    let names := names.filter fun n => n ≠ [dotByte] ∧ n ≠ [dotByte,dotByte]
    .ok (.fromEntries (names.map fun n => (n,(env.statx dir n).mapError env.strerror)))

/-- A template interpolated for a member, or the note that it cannot be. -/
def interpolateFor (group : GroupId) (name : Name) (field : String) (template : Template) :
    Except Note Text :=
  (template.interpolate name).mapError (.interpolationFailed group name field)

/-- The desired mount of a member; a source that fails is noted before the target. -/
def desiredMount (group : GroupId) (config : GroupConfig) (name : Name) :
    Except Note DesiredMount :=
  match interpolateFor group name "source" config.source,
    interpolateFor group name "target" config.target with
  | .ok source,.ok target =>
    .ok ⟨⟨group,name⟩,⟨config.sourceRoot,source⟩,⟨config.targetRoot,target⟩,config.attrs⟩
  | .error note,_ => .error note
  | _,.error note => .error note

namespace Observed

/-- One iteration of the loop over the members of a group. -/
def addMember (group : GroupId) (config : GroupConfig) (out : Observed) (name : Name) : Observed :=
  match desiredMount group config name with
  | .ok d => {out with desired := out.desired++[d]}
  | .error note => {out with notes := out.notes++[note]}

def freeze (out : Observed) (group : GroupId) (note : Note) : Observed :=
  {out with frozen := insert group out.frozen, notes := out.notes++[note]}

/-- A group whose membership could be read. -/
def addMembership (group : GroupId) (config : GroupConfig) (out : Observed) (m : Membership) :
    Observed :=
  let out := if m.ignored = [] then out else {out with ignored := out.ignored.insert group m.ignored}
  let out := {out with notes := out.notes++m.rejected.map (.rejected group)}
  let out := m.members.toList.foldl (addMember group config) out
  {out with members := out.members.insert group m.members}

/-- One iteration of the loop over the groups in `observe`. -/
def addGroup (env : PassEnv H) (degraded : Finset GroupId) (out : Observed)
    (entry : GroupId × GroupRuntime H) : Observed :=
  let (groupName,group) := entry
  if groupName ∈ degraded then out
  else if (env.isDeleted group.membershipDir).toOption.getD false then
    out.freeze groupName (.membershipDeleted groupName)
  else match scanMembership env.toScanEnv group.membershipDir with
    | .error e => out.freeze groupName (.membershipUnreadable groupName (env.strerror e))
    | .ok m => addMembership groupName group.config out m

end Observed

/-- The source of a desired mount. -/
def observeSource (env : PassEnv H) (source : Location) : SourceState :=
  match env.rootError source.root with
  | some e => .unavailable ("source root " ++ displayPath source.root ++ ": " ++ e)
  | none =>
    match env.resolveDir source with
    | .ok id => .resolved id
    | .error e => .unavailable (String.ofList source.display ++ ": " ++ e)

/-- What is at a target. -/
def observeTarget (env : PassEnv H) (target : Location) : TargetState :=
  match env.rootError target.root with
  | some e => .unavailable ("target root " ++ displayPath target.root ++ ": " ++ e)
  | none => env.inspect target

/-- The desired targets, and the recorded ones of groups that are not frozen. -/
def observedTargets (state : State) (out : Observed) : List Location :=
  out.desired.map DesiredMount.target++
    (state.records.filter fun r => r.group ∉ out.frozen).map MountRecord.targetLocation

/-- `observe_kernel`. -/
def observeKernel (env : PassEnv H) (state : State) (out : Observed) : Observed :=
  {out with observations := {
    sources := out.desired.foldl (fun m d => m.insert d.key (observeSource env d.source))
      out.observations.sources
    targets := (observedTargets state out).foldl (fun m l => m.insert l (observeTarget env l))
      out.observations.targets }}

/-- `observe`; the groups in `degraded` are not scanned and are frozen. -/
def observe (env : PassEnv H) (runtime : Runtime H) (state : State) (degraded : Finset GroupId) :
    Observed :=
  observeKernel env state
    (runtime.groups.toList.foldl (Observed.addGroup env degraded) ⟨[],⟨∅,∅⟩,degraded,∅,∅,∅,[]⟩)

/-- The groups that are frozen before they are observed. -/
def frozenBefore (discovery : Discovery) (state : State) (degraded : Degraded) : Finset GroupId :=
  let frozenSets := degraded.sets ∪ discovery.unavailableSets
  degraded.groups ∪ discovery.unavailable ∪
    ((state.records.filter fun r => r.group.set.any (· ∈ frozenSets) ∨
      ∃ pre ∈ discovery.unavailable, r.group.startsWith pre = true).map MountRecord.group).toFinset

/-- `discover_and_observe`: the runtime after discovery, and what is observed. -/
def discoverAndObserve (env : PassEnv H) (runtime : Runtime H) (state : State)
    (degraded : Degraded) : Runtime H × Observed :=
  let (runtime,discovery) := runtime.discover env.toScanEnv degraded.sets
  let observed := observe env runtime state (frozenBefore discovery state degraded)
  (runtime,{observed with
    notes := discovery.notes++observed.notes
    scannedSets := discovery.scannedSets})

/-- The input that a pass plans from. -/
def passInput (env : PassEnv H) (runtime : Runtime H) (state : State) (degraded : Degraded) :
    PlanInput :=
  let observed := (discoverAndObserve env runtime state degraded).2
  ⟨observed.desired,state,observed.frozen,observed.observations⟩

end Byssus
