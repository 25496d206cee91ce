import Byssus.Durable
import Byssus.FailureFree
import Byssus.ReportLevel
import Byssus.StatusText

/-! `byssus status`, and what comes of the members it lists.
The command opens what it can, plans a pass and reports the plan; nothing is executed. -/
namespace Byssus
open Std (ExtTreeMap)

variable {H K D : Type}

/-! ### The command -/

/-- One group or set in `open_lenient`: one that cannot be opened is left out. -/
def lenient (opened : Except OpenGroupError (Runtime H))
    (acc : Runtime H × List OpenGroupError) : Runtime H × List OpenGroupError :=
  match opened with
  | .ok runtime => (runtime,acc.2)
  | .error e => (acc.1,acc.2++[e])

/-- `Runtime::open_lenient`. -/
def openLenient (env : OpenEnv H) (config : Config) : Runtime H × List OpenGroupError :=
  config.groupSets.toList.foldl (fun acc entry => lenient (openSet env entry.2 acc.1) acc)
    (config.groups.toList.foldl (fun acc entry => lenient (openGroup env entry.2 acc.1) acc)
      (.empty,[]))

/-- `degraded_from`. -/
def degradedFrom (errors : List OpenGroupError) : Degraded :=
  errors.foldl (fun degraded e =>
    match e.subject with
    | .group group => {degraded with groups := insert group degraded.groups}
    | .set set => {degraded with sets := insert set degraded.sets}) ⟨∅,∅⟩

/-- A group or set that could not be opened. -/
def OpenGroupError.unavailable (strerror : Errno → String) (e : OpenGroupError) : Text × String :=
  (match e.subject with
    | .group group => group.display
    | .set set => setLabel set.text,
  "cannot open " ++ e.field ++ " " ++ displayPath e.path ++ ": " ++ strerror e.source)

/-- A group or set whose directory could not be read. -/
def Note.unavailable : Note → Option (Text × String)
  | .setRootDeleted set => some (setLabel set.text,"membership root has been deleted")
  | .setRootUnreadable set error =>
    some (setLabel set.text,"membership root unreadable: " ++ error)
  | .membershipDeleted group => some (group.display,"membership directory has been deleted")
  | .membershipUnreadable group error =>
    some (group.display,"membership directory unreadable: " ++ error)
  | _ => none

/-- `status`, once the state is loaded. -/
def status (env : PassEnv H) (openEnv : OpenEnv H) (config : Config) (state : State)
    (ownershipKnown : Bool) : StatusReport :=
  let (runtime,errors) := openLenient openEnv config
  let observed := (discoverAndObserve env runtime state (degradedFrom errors)).2
  let plan := plan (observed.planInput state)
  { unavailable := (errors.map (OpenGroupError.unavailable env.strerror)++
      observed.notes.filterMap Note.unavailable).foldl (fun m e => m.insert e.1 e.2) ∅
    members := memberStatuses observed plan state ownershipKnown }

theorem foldl_lenient {α : Type} {f : Runtime H → α → Except OpenGroupError (Runtime H)}
    {l : List α} {runtime runtime' : Runtime H} (h : l.foldlM f runtime = .ok runtime')
    (errors : List OpenGroupError) :
    l.foldl (fun acc a => lenient (f acc.1 a) acc) (runtime,errors) = (runtime',errors) := by
  induction l generalizing runtime with
  | nil =>
    cases h
    rfl
  | cons a l ih =>
    rw [List.foldlM_cons] at h
    cases hf : f runtime a with
    | error e =>
      rw [hf] at h
      cases h
    | ok opened =>
      rw [hf] at h
      rw [List.foldl_cons]
      simp only [hf,lenient]
      exact ih h

/-- Where everything can be opened, all of it is. -/
theorem openLenient_of_open {env : OpenEnv H} {config : Config} {runtime : Runtime H}
    (h : Runtime.open env config = .ok runtime) : openLenient env config = (runtime,[]) := by
  unfold Runtime.open at h
  cases hg : config.groups.toList.foldlM (fun rt entry => openGroup env entry.2 rt)
      Runtime.empty with
  | error e =>
    rw [hg] at h
    cases h
  | ok start =>
    rw [hg] at h
    unfold openLenient
    rw [foldl_lenient hg]
    exact foldl_lenient h []

/-- The members of the report are those of a pass that nothing is degraded for. -/
theorem status_members (env : PassEnv H) {openEnv : OpenEnv H} {config : Config}
    {runtime : Runtime H} (h : Runtime.open openEnv config = .ok runtime) (state : State)
    (known : Bool) : (status env openEnv config state known).members = memberStatuses
      (discoverAndObserve env runtime state ⟨∅,∅⟩).2 (plan (passInput env runtime state ⟨∅,∅⟩))
      state known := by
  have hinput : (discoverAndObserve env runtime state ⟨∅,∅⟩).2.planInput state =
      passInput env runtime state ⟨∅,∅⟩ := rfl
  have hdegraded : degradedFrom [] = ⟨∅,∅⟩ := rfl
  dsimp only [status]
  rw [openLenient_of_open h,hdegraded,hinput]

/-! ### Where an entry of the report comes from -/

/-- The states of members that something is found about. -/
def MemberState.Found : MemberState → Prop
  | .conflict => True
  | .mountedOwnershipUnknown => True
  | .sourceUnavailable => True
  | .targetUnavailable => True
  | .collision => True
  | .relocationBlocked => True
  | _ => False

/-- A removal's entry. -/
def Action.ShownRemoval (a : Action) (s : MemberStatus) : Prop :=
  match a with
  | .unmount r _ => s.state = .wouldUnmount ∧ s.target = some r.targetLocation.display
  | .dropRecord r _ => s.state = .staleRecord ∧ s.target = some r.targetLocation.display
  | .mount _ => False

/-- What one iteration of the loop over the steps does depends on the action. -/
def actionStatus (acc : StatusMap × List RecordKey) (a : Action) : StatusMap × List RecordKey :=
  stepStatus acc ⟨a,[]⟩

theorem stepStatus_foldl (steps : List Step) (acc : StatusMap × List RecordKey) :
    steps.foldl stepStatus acc = (steps.map Step.action).foldl actionStatus acc := by
  rw [List.foldl_map]
  congr 1

/-- The keys that are unmounted. -/
def Action.unmounts : Action → Option RecordKey
  | .unmount r _ => some r.key
  | _ => none

theorem foldl_actionStatus_unmounting (as : List Action) (acc : StatusMap × List RecordKey) :
    (as.foldl actionStatus acc).2 = acc.2++as.filterMap Action.unmounts := by
  induction as generalizing acc with
  | nil => simp
  | cons a as ih =>
    rw [List.foldl_cons,ih]
    cases a <;> simp [actionStatus,stepStatus,Action.unmounts,List.filterMap_cons]

/-- The entries that removals give. -/
theorem removals_overwrite (as : List Action) (h : ∀ a ∈ as, a.phase = 0)
    (acc : StatusMap × List RecordKey) :
    Maps.Overwrites (fun k s => ∃ a ∈ as, a.key = k ∧ a.ShownRemoval s) acc.1
      (as.foldl actionStatus acc).1 (as.flatMap fun a => [a.key]) := by
  refine Maps.Overwrites.foldl (g := Prod.fst) (fun acc a ha => ?_) acc
  cases a with
  | unmount r reason => exact .insert ⟨_,ha,rfl,rfl,rfl⟩
  | dropRecord r reason => exact .insert ⟨_,ha,rfl,rfl,rfl⟩
  | mount d => exact absurd (h _ ha) (by simp [Action.phase])

/-- The entries that mounts give, when `unmounting` are the keys that were unmounted. -/
theorem mounts_overwrite (as : List Action) (h : ∀ a ∈ as, a.phase ≠ 0) (map : StatusMap)
    (unmounting : List RecordKey) :
    Maps.Overwrites (fun k s => ∃ d, Action.mount d ∈ as ∧ d.key = k ∧
        s.target = some d.target.display ∧
        s.state = if k ∈ unmounting then .wouldRemount else .wouldMount) map
      (as.foldl actionStatus (map,unmounting)).1 (as.flatMap fun a => [a.key]) := by
  have hpair : ∀ (as : List Action), (∀ a ∈ as, a.phase ≠ 0) → ∀ map : StatusMap,
      as.foldl actionStatus (map,unmounting) =
        (as.foldl (fun map a => (actionStatus (map,unmounting) a).1) map,unmounting) := by
    intro as
    induction as with
    | nil => exact fun _ _ => rfl
    | cons a as ih =>
      intro h map
      cases a with
      | unmount r reason => exact absurd rfl (h _ List.mem_cons_self)
      | dropRecord r reason => exact absurd rfl (h _ List.mem_cons_self)
      | mount d =>
        rw [List.foldl_cons,List.foldl_cons]
        exact ih (fun a ha => h a (List.mem_cons_of_mem _ ha)) _
  rw [hpair as h map]
  refine Maps.Overwrites.foldl (g := id) (fun map a ha => ?_) map
  cases a with
  | unmount r reason => exact absurd rfl (h _ ha)
  | dropRecord r reason => exact absurd rfl (h _ ha)
  | mount d => exact .insert ⟨d,ha,rfl,rfl,rfl⟩

theorem finding_overwrites (known : Bool) (map : StatusMap) (f : Finding) :
    Maps.Overwrites (fun _ s => s.state.Found) map (applyFinding known map f) f.keys := by
  cases f with
  | conflict key target kind =>
    refine .insert ?_
    split_ifs <;> trivial
  | sourceUnavailable key source reason => exact .insert trivial
  | targetUnavailable key target reason => exact .insert trivial
  | targetCollision target members kept =>
    have hset : ∀ (map : StatusMap), ∀ key ∈ members.filter fun k => some k ≠ kept,
        Maps.Overwrites (fun _ s => s.state.Found) (id map) (id (map.set key target.display
          .collision (kept.map fun k => "target kept by " ++ String.ofList k.display))) [key] :=
      fun _ _ _ => .insert trivial
    have h := Maps.Overwrites.foldl hset map
    rwa [List.flatMap_singleton'] at h
  | relocationBlocked key oldTarget => exact .insert trivial

section
variable {observed : Observed} {state : State} {known : Bool} {k : RecordKey} {s : MemberStatus}

/-- The entry of a member and what it comes from: the last of the loops that was about it. -/
inductive EntryOf (input : PlanInput) (k : RecordKey) (s : MemberStatus) : Prop
  | finding {f : Finding} (hf : f ∈ plannedFindings input) (hk : k ∈ f.keys) (hs : s.state.Found)
  | mount {d : DesiredMount} (hd : Action.mount d ∈ plannedActions input) (hk : d.key = k)
      (ht : s.target = some d.target.display)
      (hs : (s.state = .wouldRemount ∧ ∃ r reason, .unmount r reason ∈ plannedActions input ∧
          r.key = k) ∨
        (s.state = .wouldMount ∧ ∀ r reason, .unmount r reason ∈ plannedActions input → r.key ≠ k))
  | removal {a : Action} (ha : a ∈ plannedActions input) (hk : a.key = k) (hs : a.ShownRemoval s)
      (hno : ∀ d, Action.mount d ∈ plannedActions input → d.key ≠ k)
  | frozen {r : MountRecord} (hr : r ∈ input.state.records) (hf : r.group ∈ input.frozenGroups)
      (hk : r.key = k) (ht : s.target = some r.targetLocation.display)
      (hs : s.state = .groupUnavailable)
  | desired {d : DesiredMount} (hd : d ∈ input.desired) (hk : d.key = k)
      (ht : s.target = some d.target.display) (hs : s.state = .mounted)
      (hno : k ∉ markedKeys input)

/-- The entry of a desired member. -/
def DesiredEntry (observed : Observed) (k : RecordKey) (s : MemberStatus) : Prop :=
  ∃ d ∈ observed.desired, d.key = k ∧ s.target = some d.target.display ∧ s.state = .mounted

/-- The entry of a record of a frozen group. -/
def FrozenEntry (observed : Observed) (state : State) (k : RecordKey) (s : MemberStatus) : Prop :=
  ∃ r ∈ state.records, r.group ∈ observed.frozen ∧ r.key = k ∧
    s.target = some r.targetLocation.display ∧ s.state = .groupUnavailable

theorem desired_overwrites (observed : Observed) : Maps.Overwrites (DesiredEntry observed) ∅
    (desiredStatuses observed.desired) (observed.desired.flatMap fun d => [d.key]) := by
  have hset : ∀ (map : StatusMap), ∀ d ∈ observed.desired,
      Maps.Overwrites (DesiredEntry observed) (id map)
        (id (map.set d.key d.target.display .mounted none)) [d.key] :=
    fun map d hd => .insert ⟨d,hd,rfl,rfl,rfl⟩
  exact Maps.Overwrites.foldl hset ∅

theorem records_overwrite (observed : Observed) (state : State) (map : StatusMap) :
    Maps.Overwrites (FrozenEntry observed state) map
      (state.records.foldl (recordStatus observed.frozen) map)
      (state.records.flatMap fun r => if r.group ∈ observed.frozen then [r.key] else []) := by
  have hrecord : ∀ (map : StatusMap), ∀ r ∈ state.records,
      Maps.Overwrites (FrozenEntry observed state) (id map)
        (id (recordStatus observed.frozen map r))
        (if r.group ∈ observed.frozen then [r.key] else []) := by
    intro map r hr
    unfold recordStatus
    split_ifs with hf
    · exact .insert ⟨r,hr,hf,rfl,rfl,rfl⟩
    · exact .refl
  exact Maps.Overwrites.foldl hrecord map

theorem findings_overwrite (known : Bool) (findings : List Finding) (map : StatusMap) :
    Maps.Overwrites (fun _ s => s.state.Found) map (applyFindings map findings known)
      (findings.flatMap Finding.keys) := by
  have hfinding : ∀ (map : StatusMap), ∀ f ∈ findings, Maps.Overwrites
      (fun _ s => s.state.Found) (id map) (id (applyFinding known map f)) f.keys :=
    fun map f _ => finding_overwrites known map f
  exact Maps.Overwrites.foldl hfinding map

/-- A planned action that is no removal is a mount. -/
theorem filter_mounts_keys {as : List Action} {k : RecordKey}
    (hno : k ∉ (as.filter fun a => a.phase ≠ 0).flatMap fun a => [a.key]) {d : DesiredMount}
    (hd : Action.mount d ∈ as) : d.key ≠ k := by
  rintro rfl
  refine hno (List.mem_flatMap.mpr ⟨.mount d,List.mem_filter.mpr ⟨hd,?_⟩,List.mem_singleton_self _⟩)
  simp [Action.phase]

/-- Every entry of the report about members is one of those. -/
theorem statusMap_entry (h : (statusMap observed (plan (observed.planInput state)) state
      known)[k]? = some s) : EntryOf (observed.planInput state) k s := by
  dsimp only [statusMap] at h
  rw [stepStatus_foldl,plan_actions,List.foldl_append,plan_findings] at h
  generalize hrecorded : state.records.foldl (recordStatus observed.frozen)
    (desiredStatuses observed.desired) = recorded at h
  have hremovals := removals_overwrite
    ((plannedActions (observed.planInput state)).filter fun a => a.phase = 0)
    (fun a ha => of_decide_eq_true (List.mem_filter.mp ha).2) (recorded,[])
  have hunmounting := foldl_actionStatus_unmounting
    ((plannedActions (observed.planInput state)).filter fun a => a.phase = 0) (recorded,[])
  generalize ((plannedActions (observed.planInput state)).filter fun a => a.phase = 0).foldl
    actionStatus (recorded,[]) = removed at h hremovals hunmounting
  obtain ⟨removed,unmounting⟩ := removed
  have hmounts := mounts_overwrite
    ((plannedActions (observed.planInput state)).filter fun a => a.phase ≠ 0)
    (fun a ha => of_decide_eq_true (List.mem_filter.mp ha).2) removed unmounting
  rcases (findings_overwrite known _ _).get h with ⟨hk,hs⟩ | ⟨hnf,h⟩
  · obtain ⟨f,hf,hk⟩ := List.mem_flatMap.mp hk
    exact .finding hf hk hs
  rcases hmounts.get h with ⟨-,d,hd,rfl,ht,hs⟩ | ⟨hnm,h⟩
  · have hmem : d.key ∈ unmounting ↔ ∃ r reason,
        Action.unmount r reason ∈ plannedActions (observed.planInput state) ∧ r.key = d.key := by
      rw [show unmounting = _ from hunmounting,List.nil_append,List.mem_filterMap]
      constructor
      · rintro ⟨a,ha,hk⟩
        cases a with
        | unmount r reason => exact ⟨r,reason,(List.mem_filter.mp ha).1,Option.some.inj hk⟩
        | dropRecord r reason => cases hk
        | mount e => cases hk
      · rintro ⟨r,reason,ha,hk⟩
        exact ⟨_,List.mem_filter.mpr ⟨ha,by simp [Action.phase]⟩,congrArg some hk⟩
    refine .mount (List.mem_filter.mp hd).1 rfl ht ?_
    by_cases hunmounted : d.key ∈ unmounting
    · exact .inl ⟨by rw [hs,if_pos hunmounted],hmem.mp hunmounted⟩
    · exact .inr ⟨by rw [hs,if_neg hunmounted],
        fun r reason hr hk => hunmounted (hmem.mpr ⟨r,reason,hr,hk⟩)⟩
  have hmount := fun d (hd : Action.mount d ∈ plannedActions (observed.planInput state)) =>
    filter_mounts_keys hnm hd
  rcases hremovals.get h with ⟨-,a,ha,hk,hs⟩ | ⟨hnr,h⟩
  · exact .removal (List.mem_filter.mp ha).1 hk hs hmount
  subst hrecorded
  rcases (records_overwrite observed state _).get h with ⟨-,r,hr,hf,hk,ht,hs⟩ | ⟨hnf',h⟩
  · exact .frozen hr hf hk ht hs
  rcases (desired_overwrites observed).get h with ⟨-,d,hd,hk,ht,hs⟩ | ⟨-,h⟩
  · refine .desired hd hk ht hs fun hmarked => ?_
    rcases mem_markedKeys.mp hmarked with ⟨r,hr,hf,hk'⟩ | ⟨a,ha,hk'⟩ | ⟨f,hf,hk'⟩
    · refine hnf' (List.mem_flatMap.mpr ⟨r,hr,?_⟩)
      rw [if_pos (show r.group ∈ observed.frozen from hf),hk']
      exact List.mem_singleton_self k
    · rcases a.removes_or_mounts with ⟨r,hr⟩ | ⟨e,rfl⟩
      · refine hnr (List.mem_flatMap.mpr ⟨a,List.mem_filter.mpr ⟨ha,?_⟩,by simp [hk']⟩)
        exact decide_eq_true hr.phase_eq
      · exact hmount e ha hk'
    · exact hnf (List.mem_flatMap.mpr ⟨f,hf,hk'⟩)
  · simp at h

end

/-! ### What is found about a member that is mounted -/

section
variable {input : PlanInput} {d : DesiredMount}

/-- Nothing is found about a member with a mount among its actions. -/
theorem memberFindings_of_mount (h : Action.mount d ∈ memberActions input d) :
    memberFindings input d = [] := by
  unfold memberActions at h
  unfold memberFindings
  cases hr : recordHere input d with
  | some r =>
    simp only [hr,recordedActions] at h
    simp only [recordedFindings]
    cases ht : input.target d.target with
    | mounted identity attrs =>
      by_cases hi : identity.matches r.identity = true
      · simp [hi]
      · simp [ht,hi] at h
    | notMounted =>
      cases hs : input.source d.key with
      | resolved root => simp [sourceFindings,hs]
      | unavailable reason => simp [ht,hs] at h
    | unavailable reason => simp [ht] at h
  | none =>
    simp only [hr,unrecordedActions] at h
    split_ifs at h with hall
    · simp only [Bool.and_eq_true,Bool.not_eq_true'] at hall
      obtain ⟨⟨hblocked,hvacated⟩,hsource⟩ := hall
      have hfindings : sourceFindings input d = [] := by
        unfold sourceFindings
        cases hs : input.source d.key with
        | resolved root => rfl
        | unavailable reason => simp [hs] at hsource
      simp only [unrecordedFindings,hblocked]
      cases ht : input.target d.target with
      | mounted identity attrs => simp [hvacated,hfindings]
      | notMounted => simp [hvacated,hfindings]
      | unavailable reason => simp [vacated,ht] at hvacated
    · simp at h

/-- Nothing is found about a member that is to be mounted. -/
theorem no_finding_of_mount (hkeys : (input.desired.map DesiredMount.key).Nodup)
    (hd : Action.mount d ∈ plannedActions input) {f : Finding} (hf : f ∈ plannedFindings input) :
    d.key ∉ f.keys := by
  intro hk
  obtain ⟨hacc,hown⟩ : Accepts input d ∧ Action.mount d ∈ memberActions input d := by
    rcases mem_plannedActions hd with ⟨r,-,hr⟩ | ⟨e,he,hmem⟩
    · rcases departAction_removes hr with ⟨_,h⟩ | ⟨_,h⟩ <;> cases h
    · rcases mem_memberActions hmem with h | ⟨r,-,hr⟩
      · cases h
        exact ⟨he,hmem⟩
      · rcases hr with ⟨_,h⟩ | ⟨_,h⟩ <;> cases h
  have hnone := memberFindings_of_mount hown
  rcases mem_plannedFindings.mp hf with ⟨e,he,hc⟩ | ⟨r,hr,hdep⟩ | ⟨e,he,hm⟩
  · obtain ⟨d',hd',-,hk',hne⟩ := mem_collisions.mp ⟨e,he,f,hc,hk⟩
    rw [List.inj_on_of_nodup_map hkeys hd' hacc.mem hk',hacc.1] at hne
    exact hne rfl
  · rw [(departFinding_departs hdep).2,List.mem_singleton] at hk
    rw [memberFindings_of_departFinding hacc hr hk.symm hdep] at hnone
    cases hnone
  · rw [memberFindings_keys hm,List.mem_singleton] at hk
    rw [accepts_unique hkeys he hacc hk.symm,hnone] at hm
    cases hm

end

/-! ### What comes of the members -/

/-- The member gets a record and a mount, alone at the target of the entry. -/
def MemberStatus.MountedAnew (dir : Location → D) (unique : Bool) (input : PlanInput)
    (after : World D) (k : RecordKey) (s : MemberStatus) : Prop :=
  ∃ d ∈ input.desired, d.key = k ∧ s.target = some d.target.display ∧
    ∃ r m, after.state.get k = some r ∧ after.table (dir d.target) = [m] ∧
      LeftMounted unique input d r m

/-- The member has the record `r`, for the target of the entry. -/
def MemberStatus.RecordedAs (before : World D) (k : RecordKey) (s : MemberStatus)
    (r : MountRecord) : Prop :=
  before.state.get k = some r ∧ s.target = some r.targetLocation.display

/-- The mount at the target is taken off, and what is mounted there is another member's. -/
def Vacated (dir : Location → D) (unique : Bool) (input : PlanInput) (before after : World D)
    (k : RecordKey) (l : Location) : Prop :=
  after.table (dir l) <:+ (before.table (dir l)).tail ∨ ∃ d ∈ input.desired, d.target = l ∧
    d.key ≠ k ∧ ∃ r m, after.table (dir l) = [m] ∧ LeftMounted unique input d r m

/-- What the entry of a member says about a pass from `before` to `after`. -/
def MemberStatus.Foretells (dir : Location → D) (unique : Bool) (input : PlanInput)
    (before after : World D) (k : RecordKey) (s : MemberStatus) : Prop :=
  let seen := fun r : MountRecord => (input.target r.targetLocation).shows r
  match s.state with
  | .mounted => ∃ d ∈ input.desired, d.key = k ∧ s.target = some d.target.display ∧
      ∃ r, Healthy input d r ∧ after.state.get k = some r
  | .wouldMount => s.MountedAnew dir unique input after k ∧
      ∀ r, before.state.get k = some r → seen r = false
  | .wouldRemount => s.MountedAnew dir unique input after k ∧
      ∃ r, before.state.get k = some r ∧ seen r = true
  | .wouldUnmount => ∃ r, s.RecordedAs before k r ∧ seen r = true ∧ after.state.get k = none ∧
      Vacated dir unique input before after k r.targetLocation
  | .staleRecord => ∃ r, s.RecordedAs before k r ∧ seen r = false ∧ after.state.get k = none
  | .groupUnavailable => ∃ r, s.RecordedAs before k r ∧ after.state.get k = some r
  | .rejected => False
  -- something is found, and what was recorded is kept or given up
  | _ => after.state.get k = none ∨ after.state.get k = before.state.get k

section
variable {input : PlanInput} {r : MountRecord}

/-- A record that is removed is the member's. -/
theorem get_of_removes {a : Action} (ha : a ∈ plannedActions input) (hr : a.Removes r) :
    input.state.get a.key = some r := by
  rw [hr.key_eq]
  exact State.mem_records.mp (plan_removes_record (mem_plan_actions.mpr ha) hr)

end

namespace FailureFree

variable [DecidableEq D] {dir : Location → D} {access : Location → Option String}
  {readable : Location → Bool} {unique : Bool} {input : PlanInput} {env : ℕ → StepEnv D}
  {w : World D} {k : RecordKey} {s : MemberStatus}

theorem mountedAnew (h : FailureFree dir access readable unique input env w) {d : DesiredMount}
    (hd : Action.mount d ∈ plannedActions input) (ht : s.target = some d.target.display) :
    s.MountedAnew dir unique input (after env unique input w) d.key := by
  obtain ⟨r,m,hget,htable,hleft,-⟩ := h.mounted hd
  exact ⟨d,(mount_mem_iff.mp hd).1.mem,rfl,ht,r,m,hget,htable,hleft⟩

/-- A member that is mounted without an unmount has no record of a mount that is seen. -/
theorem unseen_of_mount (h : FailureFree dir access readable unique input env w)
    {d : DesiredMount} (hd : Action.mount d ∈ plannedActions input)
    (hno : ∀ r reason, Action.unmount r reason ∈ plannedActions input → r.key ≠ d.key)
    {r : MountRecord} (hr : w.state.get d.key = some r) :
    (input.target r.targetLocation).shows r = false := by
  rw [← h.state] at hr
  obtain ⟨i,deps,hs⟩ := mem_actions_iff.mp hd
  rcases plan_mount_waits hs hr with ⟨j,-,a,js,hj,hrem⟩ | ⟨ht,hnone⟩
  · have ha := mem_actions_iff.mpr ⟨j,js,hj⟩
    rcases hrem with ⟨reason,rfl⟩ | ⟨reason,rfl⟩
    · exact absurd (State.key_of_get hr) (hno r reason ha)
    · exact (plan_drop_unseen (mem_plan_actions.mpr ha)).1
  · rw [ht,hnone]
    rfl

/-- Where a mount is taken off and none is made, the mounts below are left. -/
theorem vacated (h : FailureFree dir access readable unique input env w) {r : MountRecord}
    {reason : UnmountReason} (ha : Action.unmount r reason ∈ plannedActions input)
    (hno : ∀ d, Action.mount d ∈ plannedActions input → d.key ≠ k) :
    Vacated dir unique input w (after env unique input w) k r.targetLocation := by
  obtain ⟨i,deps,hs⟩ := mem_actions_iff.mp ha
  rcases h.progress.unmounted i (index_lt hs) r reason deps hs with hleft | ⟨j,-,d,js,hj,ht⟩
  · exact .inl hleft
  · have hd := mem_actions_iff.mpr ⟨j,js,hj⟩
    obtain ⟨q,m,-,htable,hleft,-⟩ := h.mounted hd
    refine .inr ⟨d,(mount_mem_iff.mp hd).1.mem,(h.independent ht).symm,hno d hd,q,m,?_,hleft⟩
    rw [ht]
    exact htable

/-- What is found about a member keeps it from being mounted. -/
theorem found (h : FailureFree dir access readable unique input env w) {f : Finding}
    (hf : f ∈ plannedFindings input) (hk : k ∈ f.keys) :
    (after env unique input w).state.get k = none ∨
      (after env unique input w).state.get k = w.state.get k := by
  have hno : ∀ d, Action.mount d ∈ plannedActions input → d.key ≠ k := by
    rintro d hd rfl
    exact no_finding_of_mount h.keys hd hf hk
  by_cases ha : ∃ a ∈ plannedActions input, a.key = k
  · obtain ⟨a,ha,rfl⟩ := ha
    rcases a.removes_or_mounts with ⟨r,hr⟩ | ⟨d,rfl⟩
    · left
      rw [hr.key_eq] at hno ⊢
      exact h.removed ha hr hno
    · exact absurd rfl (hno d ha)
  · right
    rw [h.kept fun a hmem hk => ha ⟨a,hmem,hk⟩,h.state]

/-- An entry foretells what comes of its member. -/
theorem foretells (h : FailureFree dir access readable unique input env w)
    (hfrozen : ∀ d ∈ input.desired, d.key.group ∉ input.frozenGroups) (he : EntryOf input k s) :
    s.Foretells dir unique input w (after env unique input w) k := by
  unfold MemberStatus.Foretells
  cases he with
  | finding hf hk hs =>
    have hfound := h.found hf hk
    cases hstate : s.state <;> simp only [hstate,MemberState.Found] at hs <;> exact hfound
  | @mount d hd hk ht hs =>
    subst hk
    rcases hs with ⟨hs,r,reason,hr,hk⟩ | ⟨hs,hno⟩
    · rw [hs]
      refine ⟨h.mountedAnew hd ht,r,?_,plan_unmount_seen hr⟩
      rw [← h.state,← hk]
      exact get_of_removes hr (.inl ⟨reason,rfl⟩)
    · rw [hs]
      exact ⟨h.mountedAnew hd ht,fun r => h.unseen_of_mount hd hno⟩
  | @removal a ha hk hs hno =>
    subst hk
    cases a with
    | unmount r reason =>
      obtain ⟨hs,ht⟩ := hs
      rw [hs]
      have hget := get_of_removes ha (.inl ⟨reason,rfl⟩)
      rw [h.state] at hget
      exact ⟨r,⟨hget,ht⟩,plan_unmount_seen ha,h.removed ha (.inl ⟨reason,rfl⟩) hno,
        h.vacated ha hno⟩
    | dropRecord r reason =>
      obtain ⟨hs,ht⟩ := hs
      rw [hs]
      have hget := get_of_removes ha (.inr ⟨reason,rfl⟩)
      rw [h.state] at hget
      exact ⟨r,⟨hget,ht⟩,(plan_drop_unseen (mem_plan_actions.mpr ha)).1,
        h.removed ha (.inr ⟨reason,rfl⟩) hno⟩
    | mount d => exact hs.elim
  | @frozen r hr hf hk ht hs =>
    subst hk
    rw [hs]
    have hget := State.mem_records.mp hr
    have hno : ∀ a ∈ plannedActions input, a.key ≠ r.key := by
      intro a ha hk
      apply plan_notFrozen (mem_plan_actions.mpr ha)
      rw [hk]
      exact hf
    refine ⟨r,⟨?_,ht⟩,?_⟩
    · rw [← h.state,hget]
    · rw [h.kept hno,hget]
  | @desired d hd hk ht hs hno =>
    subst hk
    rw [hs]
    obtain ⟨r,hr⟩ := healthy_of_unmarked h.keys hd (hfrozen d hd) hno
    refine ⟨d,hd,rfl,ht,r,hr,?_⟩
    rw [h.kept fun a ha hk => hno (mem_markedKeys.mpr (.inr (.inl ⟨a,ha,hk⟩)))]
    exact (recordHere_iff.mp hr.recorded).1

end FailureFree

section
variable [DecidableEq D] {sys : InotifySys K} {dir : Location → D}
  {access : Location → Option String} {readable : Location → Bool} {unique : Bool}

/-- The first pass plans from what is observed, and executes that. -/
theorem start_world (startup : Startup sys H) (world : World D) (unique : Bool) (clock : ℕ)
    (a : PassAnswers H K D) : (Loop.start startup world unique clock a).daemon.world =
      after a.steps unique (passInput a.env startup.runtime world.state ⟨∅,∅⟩) world := by
  obtain ⟨-,-,-,-,-,hworld,-⟩ := Daemon.pass_frame sys a (clock+a.elapsed)
    {(Loop.initial startup world unique clock).daemon with pending := none}
  simp only [Loop.start,Loop.startPass,Loop.initial] at hworld ⊢
  rw [hworld]
  simp only [Daemon.runPass,after]

/-- What `status` reports of the members is what the first pass of a daemon that is started then
does about them, if nothing disturbs it: every entry foretells what comes of its member, and
every member whose record the pass changes has an entry. -/
theorem status_foretells (startup : Startup sys H) (known : Bool) (clock : ℕ) {world : World D}
    {a : PassAnswers H K D} (h : FailureFree dir access readable unique
      (passInput a.env startup.runtime world.state ⟨∅,∅⟩) a.steps world) :
    let input := passInput a.env startup.runtime world.state ⟨∅,∅⟩
    let report := status a.env startup.openEnv startup.loaded.config world.state known
    let after := (Loop.start startup world unique clock a).daemon.world
    (∀ s ∈ report.members, s.state ≠ .rejected →
      ∃ k, s.For k ∧ s.Foretells dir unique input world after k) ∧
    ∀ k, after.state.get k ≠ world.state.get k →
      ∃ s ∈ report.members, s.For k ∧ s.Foretells dir unique input world after k := by
  intro input report after
  have hafter : after = Byssus.after a.steps unique input world :=
    start_world startup world unique clock a
  have hmembers := status_members a.env startup.open_eq world.state known
  have hfrozen : ∀ d ∈ input.desired, d.key.group ∉ input.frozenGroups :=
    fun d hd hf => (mem_desired.mp hd).1 (mem_frozenGroups.mp hf)
  rw [hafter,show report.members = _ from hmembers]
  constructor
  · intro s hs hstate
    rcases mem_memberStatuses.mp hs with ⟨k,hk⟩ | ⟨n,-,hn⟩
    · exact ⟨k,statusMap_for hk,h.foretells hfrozen (statusMap_entry hk)⟩
    · exact absurd (noteStatus_rejected hn) hstate
  · intro k hk
    obtain ⟨action,haction,hkey⟩ : ∃ action ∈ plannedActions input, action.key = k := by
      by_contra hno
      apply hk
      rw [h.kept fun action hmem hkey => hno ⟨action,hmem,hkey⟩]
      rfl
    have hmarked : k ∈ markedKeys input := mem_markedKeys.mpr (.inr (.inl ⟨action,haction,hkey⟩))
    obtain ⟨s,hs,hfor,-⟩ := (statusMap_marks
      (discoverAndObserve a.env startup.runtime world.state ⟨∅,∅⟩).2 world.state known).marked k
        hmarked
    exact ⟨s,mem_memberStatuses.mpr (.inl ⟨k,hs⟩),hfor,h.foretells hfrozen (statusMap_entry hs)⟩

end

/-- What is not looked at is not observed. -/
theorem observe_target_none {env : PassEnv H} {runtime : Runtime H} {state : State}
    {degraded : Degraded} {l : Location}
    (h : l ∉ observedTargets state (observedAfter env runtime state degraded)) :
    (passInput env runtime state degraded).observations.targets[l]? = none := by
  have hgroups : ∀ (out : Observed) (entries : List (GroupId × GroupRuntime H)),
      (entries.foldl (Observed.addGroup env (frozenBefore
        (runtime.discover env.toScanEnv degraded.sets).2 state degraded)) out).observations =
          out.observations := by
    intro out entries
    refine Lists.foldl_induction
      (P := fun _ (out' : Observed) => out'.observations = out.observations) rfl ?_ entries
    intro done entry out' h
    rw [(addGroup_spec env _ out' entry).1,h]
  rw [passInput_eq,Option.eq_none_iff_forall_ne_some]
  intro t ht
  have hunique : ∀ l ∈ observedTargets state (observedAfter env runtime state degraded),
      ∀ l' ∈ observedTargets state (observedAfter env runtime state degraded),
        l = l' → observeTarget env l = observeTarget env l' := by
    intro l _ l' _ hl
    rw [hl]
  rcases (Maps.getElem?_foldl_insert_of_unique hunique _).mp ht with ⟨l',hl',rfl,-⟩ | ⟨-,ht⟩
  · exact h hl'
  · rw [hgroups] at ht
    simp at ht

/-! A member has left, and another one has come. -/
namespace SampleStatus

open SampleLife SampleStateFile FailureFreeRun

def left : Name := ⟨"zlib".toList,by decide⟩
def leftMember : DesiredMount := {desired with
  key := ⟨.statically group,left⟩
  target := ⟨desired.target.root,left.text⟩}

def known : State := (State.empty.insert (newRecord leftMember (Sample.identity 7 42) createdAt)).1

def passEnv : PassEnv ℕ := {SampleLife.passEnv with
  resolveDir := fun _ => .ok (Sample.dir 43)
  inspect := fun l => if l = leftMember.target then mounted 7 42 else .notMounted}

def input : PlanInput := passInput passEnv runtime known ⟨∅,∅⟩

def before : World Location := world input [(leftMember.target,mount 7 42)]

def answers : PassAnswers ℕ ℕ Location := ⟨passEnv,0,env input,0⟩

theorem targets_observed : observedTargets known (observedAfter passEnv runtime known ⟨∅,∅⟩) =
    [desired.target,leftMember.target] := by decide +kernel

theorem failureFree : FailureFree id (access [desired.target,leftMember.target]) (fun _ => false)
    true (passInput answers.env startup.runtime before.state ⟨∅,∅⟩) answers.steps before :=
  failureFree_of desired_keys_nodup (by decide +kernel)
    (fun _ h => observe_target_none (targets_observed ▸ h)) (by decide +kernel) (by decide +kernel)

def report : StatusReport := status passEnv openEnv loaded.config known true

theorem status_foretells_run : (report.members.map fun s => (s.name,s.state)) =
      [(member.text,.wouldMount),(left.text,.wouldUnmount)] ∧
    ∀ s ∈ report.members, s.state ≠ .rejected → ∃ k, s.For k ∧ s.Foretells id true input before
      (Loop.start startup before true 0 answers).daemon.world k :=
  ⟨by decide +kernel,
    (status_foretells startup true 0 failureFree).1⟩

end SampleStatus
end Byssus
