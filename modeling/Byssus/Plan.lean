import Byssus.State

/-! Pure reconciliation planning.
The planner compares desired membership, the state and kernel observations, and
returns the actions to take plus findings to report. -/
namespace Byssus

/-- A member that should be mounted. -/
structure DesiredMount where
  key : RecordKey
  source : Location
  target : Location
  attrs : MountAttrs
  deriving DecidableEq

/-- Observed attributes of an attached mount. -/
structure ObservedAttrs where
  readOnly : Bool
  nosuid : Bool
  nodev : Bool
  noexec : Bool
  nosymfollow : Bool
  deriving DecidableEq

/-- At least the restrictions `attrs` requires, `nosuid` and `nodev` always; extra
restrictions are acceptable. -/
def ObservedAttrs.enforce (o : ObservedAttrs) (attrs : MountAttrs) : Bool :=
  o.nosuid && o.nodev && (o.readOnly || !attrs.readOnly) && (o.noexec || !attrs.noexec) &&
    (o.nosymfollow || !attrs.nosymfollow)

inductive SourceState
  | resolved (root : DevIno)
  | unavailable (reason : String)
  deriving DecidableEq

inductive TargetState
  | notMounted
  | mounted (identity : MountIdentity) (attrs : Option ObservedAttrs)
  | unavailable (reason : String)
  deriving DecidableEq

structure Observations where
  sources : Std.ExtTreeMap RecordKey SourceState
  targets : Std.ExtTreeMap Location TargetState

structure PlanInput where
  desired : List DesiredMount
  state : State
  frozenGroups : Finset GroupId
  observations : Observations

inductive UnmountReason
  | notMember
  | relocated
  | sourceGone (reason : String)
  | sourceChanged
  | targetCollision
  | attributesChanged
  | attributesDrifted
  deriving DecidableEq

inductive DropReason
  | mountGone
  | foreignMountAtTarget
  | sourceUnavailable (reason : String)
  deriving DecidableEq

inductive Action
  | unmount (record : MountRecord) (reason : UnmountReason)
  | dropRecord (record : MountRecord) (reason : DropReason)
  | mount (desired : DesiredMount)
  deriving DecidableEq

def Action.phase : Action → ℕ
  | .unmount _ _ => 0
  | .dropRecord _ _ => 0
  | .mount _ => 1

/-- A planned action and the indices of the earlier steps that must have succeeded. -/
structure Step where
  action : Action
  dependsOn : List ℕ
  deriving DecidableEq

inductive ConflictKind
  | foreignMount
  | targetReplaced
  deriving DecidableEq

inductive Finding
  | conflict (key : RecordKey) (target : Location) (kind : ConflictKind)
  | sourceUnavailable (key : RecordKey) (source : Location) (reason : String)
  | targetUnavailable (key : RecordKey) (target : Location) (reason : String)
  | targetCollision (target : Location) (members : List RecordKey) (kept : Option RecordKey)
  | relocationBlocked (key : RecordKey) (oldTarget : Location)
  deriving DecidableEq

structure Plan where
  steps : List Step
  findings : List Finding
  deriving DecidableEq

def Plan.isNoop (p : Plan) : Bool := p.steps.isEmpty

def recordMatchesDesired (record : MountRecord) (desired : DesiredMount) : Bool :=
  record.sourceLocation = desired.source && record.targetLocation = desired.target

theorem recordMatchesDesired_iff (r : MountRecord) (d : DesiredMount) :
    recordMatchesDesired r d = true ↔ r.sourceLocation = d.source ∧ r.targetLocation = d.target := by
  simp [recordMatchesDesired]

/-- `Builder::target`. -/
def PlanInput.target (input : PlanInput) (l : Location) : TargetState :=
  input.observations.targets[l]?.getD (.unavailable "target was not observed")

/-- `Builder::source`. -/
def PlanInput.source (input : PlanInput) (k : RecordKey) : SourceState :=
  input.observations.sources[k]?.getD (.unavailable "source was not observed")

/-- The target shows the mount the record describes. -/
def TargetState.shows (t : TargetState) (r : MountRecord) : Bool :=
  match t with
  | .mounted identity _ => identity.matches r.identity
  | _ => false

/-- Actions with the builder ids they depend on; an id is a position in `steps`. -/
structure Builder where
  input : PlanInput
  steps : List (Action × List ℕ)
  findings : List Finding

namespace Builder

def push (b : Builder) (action : Action) (dependsOn : List ℕ) : Builder × ℕ :=
  ({b with steps := b.steps ++ [(action,dependsOn)]},b.steps.length)

def report (b : Builder) (f : Finding) : Builder := {b with findings := b.findings ++ [f]}

end Builder

/-- Desired mounts that survive collision detection, by member. -/
abbrev Accepted := Std.ExtTreeMap RecordKey DesiredMount

/-- `by_target`: the desired members of groups that are not frozen, by target. -/
def byTarget (input : PlanInput) : Std.ExtTreeMap Location (List DesiredMount) :=
  input.desired.foldl (fun m d =>
    if d.key.group ∈ input.frozenGroups then m
    else m.alter d.target fun members => some (members.getD [] ++ [d])) ∅

/-- The member is already mounted at its target as the record describes. -/
def isVerified (input : PlanInput) (observed : TargetState) (d : DesiredMount) : Bool :=
  match input.state.get d.key with
  | none => false
  | some record => recordMatchesDesired record d && observed.shows record

/-- `members.sort_by(|a, b| a.key.cmp(&b.key))`, which is stable. -/
def sortByKey (members : List DesiredMount) : List DesiredMount :=
  members.insertionSort fun a b => (compare a.key b.key).isLE = true

/-- One iteration of the loop over `by_target`. -/
def resolveTarget (acc : Builder × Accepted) (entry : Location × List DesiredMount) :
    Builder × Accepted :=
  let (b,accepted) := acc
  let (target,members) := entry
  match members with
  | [d] => (b,accepted.insert d.key d)
  | members =>
    let members := sortByKey members
    let observed := b.input.target target
    let kept := members.find? (isVerified b.input observed)
    let accepted := match kept with
      | some d => accepted.insert d.key d
      | none => accepted
    (b.report (.targetCollision target (members.map DesiredMount.key) (kept.map DesiredMount.key)),
      accepted)

/-- `resolve_collisions`: the desired mounts to process. -/
def resolveCollisions (b : Builder) : Builder × Accepted :=
  (byTarget b.input).toList.foldl resolveTarget (b,∅)

/-- Effects of the removal phase that the mounts depend on. -/
structure Departures where
  /-- The step removing the member's old record, or `none` if that record must stay. -/
  oldRecordRemoval : Std.ExtTreeMap RecordKey (Option ℕ)
  /-- Targets freed by an unmount of this plan: its step and the identity removed. -/
  freedTargets : Std.ExtTreeMap Location (ℕ × MountIdentity)

/-- Why the mount of a departing record is removed. -/
def unmountReason (input : PlanInput) (desired : Accepted) (record : MountRecord) :
    UnmountReason :=
  let desiredHere := desired[record.key]?
  let collided := desiredHere.isNone && input.desired.any fun d =>
    d.key = record.key && d.key.group ∉ input.frozenGroups
  if collided then .targetCollision
  else if desiredHere.isSome then .relocated
  else .notMember

/-- One iteration of `plan_departing_records`. -/
def departRecord (desired : Accepted) (acc : Builder × Departures) (record : MountRecord) :
    Builder × Departures :=
  let (b,departures) := acc
  let input := b.input
  if record.group ∈ input.frozenGroups then (b,departures)
  else if desired[record.key]?.any (recordMatchesDesired record) then (b,departures)
  else
    let location := record.targetLocation
    match input.target location with
    | .notMounted =>
      let (b,id) := b.push (.dropRecord record .mountGone) []
      (b,{departures with
        oldRecordRemoval := departures.oldRecordRemoval.insert record.key (some id)})
    | .mounted identity _ =>
      if identity.matches record.identity then
        let (b,id) := b.push (.unmount record (unmountReason input desired record)) []
        (b,{ oldRecordRemoval := departures.oldRecordRemoval.insert record.key (some id)
             freedTargets := departures.freedTargets.insert location (id,identity) })
      else
        let (b,id) := b.push (.dropRecord record .foreignMountAtTarget) []
        (b,{departures with
          oldRecordRemoval := departures.oldRecordRemoval.insert record.key (some id)})
    | .unavailable reason =>
      (b.report (.targetUnavailable record.key location reason),{departures with
        oldRecordRemoval := departures.oldRecordRemoval.insert record.key none})

/-- `plan_departing_records`: records not desired at their recorded location. -/
def planDepartingRecords (b : Builder) (desired : Accepted) : Builder × Departures :=
  b.input.state.records.foldl (departRecord desired) (b,⟨∅,∅⟩)

/-- The end of `plan_unrecorded_member`: mount if the source resolves. -/
def mountIfResolved (b : Builder) (d : DesiredMount) (deps : List ℕ) (source : SourceState) :
    Builder :=
  match source with
  | .resolved _ => (b.push (.mount d) deps).1
  | .unavailable reason => b.report (.sourceUnavailable d.key d.source reason)

/-- The rest of `plan_unrecorded_member`, where no old record is in the way: `deps` are
the removals the mount waits for so far. -/
def placeMember (b : Builder) (d : DesiredMount) (departures : Departures) (deps : List ℕ)
    (target : TargetState) (source : SourceState) : Builder :=
  match target with
  | .notMounted => mountIfResolved b d deps source
  | .mounted identity _ =>
    match departures.freedTargets[d.target]?.filter (fun freed => freed.2 = identity) with
    | none => b.report (.conflict d.key d.target .foreignMount)
    | some freed => mountIfResolved b d (deps ++ [freed.1]) source
  | .unavailable reason => b.report (.targetUnavailable d.key d.target reason)

/-- `plan_unrecorded_member`: no record at the desired location. -/
def planUnrecordedMember (b : Builder) (d : DesiredMount) (departures : Departures)
    (target : TargetState) (source : SourceState) : Builder :=
  match departures.oldRecordRemoval[d.key]? with
  | some none =>
    let oldTarget := match b.input.state.get d.key with
      | some record => record.targetLocation
      | none => d.target
    b.report (.relocationBlocked d.key oldTarget)
  | some (some id) => placeMember b d departures [id] target source
  | none => placeMember b d departures [] target source

/-- Unmount, then create again: the new mount waits for the removal of the old one. -/
def remount (b : Builder) (d : DesiredMount) (record : MountRecord) (reason : UnmountReason) :
    Builder :=
  let (b,id) := b.push (.unmount record reason) []
  (b.push (.mount d) [id]).1

/-- Why a verified mount of an unchanged source is created again, if it is. -/
def attributeReason (d : DesiredMount) (record : MountRecord) (attrs : Option ObservedAttrs) :
    Option UnmountReason :=
  if record.attrs ≠ d.attrs then some .attributesChanged
  else if attrs.any (fun a => !a.enforce d.attrs) then some .attributesDrifted
  else none

/-- `plan_recorded_member`: the member has a record at its desired location. -/
def planRecordedMember (b : Builder) (d : DesiredMount) (record : MountRecord)
    (target : TargetState) (source : SourceState) : Builder :=
  match target with
  | .mounted identity attrs =>
    if identity.matches record.identity then
      match source with
      | .resolved root =>
        if root = record.identity.root then
          match attributeReason d record attrs with
          | some reason => remount b d record reason
          | none => b
        else remount b d record .sourceChanged
      | .unavailable reason => (b.push (.unmount record (.sourceGone reason)) []).1
    else b.report (.conflict d.key d.target .targetReplaced)
  | .notMounted =>
    match source with
    | .resolved _ => (b.push (.mount d) []).1
    | .unavailable reason =>
      let (b,_) := b.push (.dropRecord record (.sourceUnavailable reason)) []
      b.report (.sourceUnavailable d.key d.source reason)
  | .unavailable reason => b.report (.targetUnavailable d.key d.target reason)

/-- One iteration of the loop over the accepted members in `plan`. -/
def planMember (departures : Departures) (b : Builder) (entry : RecordKey × DesiredMount) :
    Builder :=
  let (key,d) := entry
  let target := b.input.target d.target
  let source := b.input.source key
  match (b.input.state.get key).filter (fun r => recordMatchesDesired r d) with
  | some record => planRecordedMember b d record target source
  | none => planUnrecordedMember b d departures target source

/-- `self.steps[id].0.phase()`. -/
def phaseAt (steps : List (Action × List ℕ)) (id : ℕ) : ℕ :=
  (steps[id]?.map fun s => s.1.phase).getD 0

/-- The builder ids in final order: a stable sort by phase. -/
def phaseOrder (steps : List (Action × List ℕ)) : List ℕ :=
  (List.range steps.length).insertionSort fun i j => phaseAt steps i ≤ phaseAt steps j

/-- `finish`: order by phase and remap dependency ids to final indices. -/
def Builder.finish (b : Builder) : Plan where
  steps :=
    let order := phaseOrder b.steps
    let indexOf := fun id => order.idxOf id
    order.filterMap fun id => b.steps[id]?.map fun s =>
      ⟨s.1,((s.2.map indexOf).insertionSort (· ≤ ·)).dedup⟩
  findings := b.findings

/-- The builder when all members are planned, before `finish`. -/
def planBuilder (input : PlanInput) : Builder :=
  let (b,desired) := resolveCollisions ⟨input,[],[]⟩
  let (b,departures) := planDepartingRecords b desired
  desired.toList.foldl (planMember departures) b

/-- `plan`. -/
def plan (input : PlanInput) : Plan := (planBuilder input).finish

/-! Small values that inputs for concrete runs are built from. -/
namespace Sample

def group : GroupId := .statically ⟨"live".toList,by decide⟩
def frozenGroup : GroupId := .statically ⟨"cold".toList,by decide⟩
def a : Name := ⟨"a".toList,by decide⟩
def b : Name := ⟨"b".toList,by decide⟩
def view (path : String) : Location := ⟨⟨["view".toList],by decide⟩,path.toList⟩
def data (path : String) : Location := ⟨⟨["data".toList],by decide⟩,path.toList⟩
def dir (ino : ℕ) : DevIno := ⟨8,1,ino⟩
def identity (id ino : ℕ) : MountIdentity := ⟨id,some id,dir ino⟩

/-- A member that is desired at `view path` with the default attributes. -/
def desired (g : GroupId) (n : Name) (path : String) : DesiredMount :=
  ⟨⟨g,n⟩,data path,view path,.default⟩

/-- A record of a mount at `view path` with the default attributes. -/
def record (g : GroupId) (n : Name) (path : String) (id ino : ℕ) : MountRecord where
  group := g
  name := n
  sourceRoot := (data path).root
  source := (data path).path
  targetRoot := (view path).root
  target := (view path).path
  mntId := id
  mntIdUnique := some id
  rootDevMajor := 8
  rootDevMinor := 1
  rootIno := ino
  readOnly := true
  noexec := true
  nosymfollow := false
  createdAt := 0

def state (records : List MountRecord) : State :=
  records.foldl (fun s r => (s.insert r).1) .empty

def observations (sources : List (RecordKey × SourceState)) (targets : List (Location × TargetState)) :
    Observations where
  sources := sources.foldl (fun m e => m.insert e.1 e.2) ∅
  targets := targets.foldl (fun m e => m.insert e.1 e.2) ∅

end Sample
end Byssus
