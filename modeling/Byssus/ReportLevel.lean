import Byssus.ReadErrors
import Byssus.Postcondition
import Byssus.Report

/-! The level of the status report.
The findings of a plan are written over each other, and the last one about a member stays.  An
error about a member is shown unless the member's relocation is blocked. -/
namespace Byssus

/-- Severity of a check or group. -/
inductive Level
  | ok
  | warn
  | error
  deriving DecidableEq

namespace Level

def rank : Level → ℕ
  | ok => 0
  | warn => 1
  | error => 2

/-- The order of the variants. -/
instance : LinearOrder Level :=
  LinearOrder.lift' rank fun a b h => by cases a <;> cases b <;> simp_all [rank]

theorem le_error (l : Level) : l ≤ error := by
  cases l <;> decide

end Level

/-- `MemberState::level`. -/
def MemberState.level : MemberState → Level
  | .mounted => .ok
  | .wouldMount => .ok
  | .wouldRemount => .ok
  | .wouldUnmount => .ok
  | .staleRecord => .ok
  | .mountedOwnershipUnknown => .ok
  | .sourceUnavailable => .warn
  | .relocationBlocked => .warn
  | .rejected => .warn
  | .conflict => .error
  | .targetUnavailable => .error
  | .collision => .error
  | .groupUnavailable => .error

/-- What a report's level depends on. -/
structure StatusReport where
  /-- The groups whose directories could not be read, with the reason. -/
  unavailable : Std.ExtTreeMap Text String
  members : List MemberStatus

/-- `StatusReport::level`: the worst member level. -/
def StatusReport.level (report : StatusReport) : Level :=
  let unavailable := if report.unavailable.isEmpty then Level.ok else .error
  ((report.members.map fun m => m.state.level)++[unavailable]).max?.getD .ok

theorem StatusReport.level_eq_error {report : StatusReport} : report.level = .error ↔
    report.unavailable.isEmpty = false ∨ ∃ m ∈ report.members, m.state.level = .error := by
  have hmax : ∀ ls : List Level, ls.max?.getD .ok = .error ↔ .error ∈ ls := by
    intro ls
    cases hls : ls.max? with
    | none => simp [List.max?_eq_none_iff.mp hls]
    | some l =>
      obtain ⟨hmem,hle⟩ := List.max?_eq_some_iff.mp hls
      rw [Option.getD_some]
      constructor
      · rintro rfl
        exact hmem
      · intro he
        exact le_antisymm l.le_error (hle _ he)
  rw [level,hmax,List.mem_append,List.mem_singleton,List.mem_map,or_comm]
  apply or_congr_left
  cases report.unavailable.isEmpty <;> simp

/-! ### Entries at error level -/

/-- The member's entry is an error. -/
def ErrorAt (map : StatusMap) (k : RecordKey) : Prop :=
  ∃ s, map[k]? = some s ∧ s.state.level = .error

theorem errorAt_set {map : StatusMap} {key k : RecordKey} {target : Text} {state : MemberState}
    {detail : Option String} : ErrorAt (map.set key target state detail) k ↔
      if key = k then state.level = .error else ErrorAt map k := by
  by_cases h : key = k <;> simp [ErrorAt,StatusMap.set,Std.ExtTreeMap.getElem?_insert,h]

theorem not_errorAt_desired (desired : List DesiredMount) (k : RecordKey) :
    ¬ErrorAt (desiredStatuses desired) k := by
  rintro ⟨s,hs,hl⟩
  by_cases hk : k ∈ desired.map DesiredMount.key
  · obtain ⟨s',hs',-,hm⟩ := (desiredStatuses_get desired k).1 hk
    rw [hs,Option.some.injEq] at hs'
    rw [hs',hm] at hl
    cases hl
  · rw [(desiredStatuses_get desired k).2 hk] at hs
    cases hs

theorem errorAt_records {frozen : Finset GroupId} {map : StatusMap} {records : List MountRecord}
    {k : RecordKey} : ErrorAt (records.foldl (recordStatus frozen) map) k ↔
      (∃ r ∈ records, r.group ∈ frozen ∧ r.key = k) ∨ ErrorAt map k := by
  induction records generalizing map with
  | nil => simp
  | cons r records ih =>
    have hstep : ErrorAt (recordStatus frozen map r) k ↔
        (r.group ∈ frozen ∧ r.key = k) ∨ ErrorAt map k := by
      by_cases hf : r.group ∈ frozen
      · by_cases hk : r.key = k <;> simp [recordStatus,errorAt_set,hf,hk,MemberState.level]
      · simp [recordStatus,hf]
    rw [List.foldl_cons,ih,hstep,List.exists_mem_cons_iff,← or_assoc]
    exact or_congr_left or_comm

theorem errorAt_steps {acc : StatusMap × List RecordKey} {steps : List Step} {k : RecordKey} :
    ErrorAt (steps.foldl stepStatus acc).1 k ↔
      (∀ s ∈ steps, s.action.key ≠ k) ∧ ErrorAt acc.1 k := by
  induction steps generalizing acc with
  | nil => simp
  | cons step steps ih =>
    have hstep : ErrorAt (stepStatus acc step).1 k ↔ step.action.key ≠ k ∧ ErrorAt acc.1 k := by
      obtain ⟨map,unmounting⟩ := acc
      obtain ⟨action,deps⟩ := step
      cases action with
      | unmount r reason =>
        by_cases hk : r.key = k <;> simp [stepStatus,errorAt_set,Action.key,hk,MemberState.level]
      | dropRecord r reason =>
        by_cases hk : r.key = k <;> simp [stepStatus,errorAt_set,Action.key,hk,MemberState.level]
      | mount d =>
        by_cases hk : d.key = k
        · subst hk
          by_cases hu : d.key ∈ unmounting <;>
            simp [stepStatus,errorAt_set,Action.key,hu,MemberState.level]
        · simp [stepStatus,errorAt_set,Action.key,hk]
    rw [List.foldl_cons,ih,hstep,List.forall_mem_cons,← and_assoc]
    exact and_congr_left' and_comm

/-- The members about which the finding is an error, when it is known which mounts are ours. -/
def Finding.errorKeys : Finding → List RecordKey
  | .conflict key _ _ => [key]
  | .sourceUnavailable _ _ _ => []
  | .targetUnavailable key _ _ => [key]
  | .targetCollision _ members kept => members.filter fun k => some k ≠ kept
  | .relocationBlocked _ _ => []

theorem errorAt_set_one {map : StatusMap} {key k : RecordKey} {target : Text}
    {state : MemberState} {detail : Option String} {errors : List RecordKey}
    (h : state.level = .error ↔ key ∈ errors) : ErrorAt (map.set key target state detail) k ↔
      if k ∈ [key] then k ∈ errors else ErrorAt map k := by
  rw [errorAt_set]
  by_cases hk : key = k
  · simp [← hk,h]
  · have hne : k ≠ key := Ne.symm hk
    simp [hk,hne]

theorem errorAt_collided {map : StatusMap} {keys : List RecordKey} {target : Text}
    {detail : Option String} {k : RecordKey} :
    ErrorAt (keys.foldl (fun map key => map.set key target .collision detail) map) k ↔
      k ∈ keys ∨ ErrorAt map k := by
  induction keys generalizing map with
  | nil => simp
  | cons key keys ih =>
    rw [List.foldl_cons,ih,errorAt_set,List.mem_cons]
    by_cases he : key = k
    · simp [he,MemberState.level]
    · have hne : k ≠ key := Ne.symm he
      simp [he,hne]

theorem errorAt_finding {map : StatusMap} {f : Finding} {k : RecordKey} :
    ErrorAt (applyFinding true map f) k ↔
      if k ∈ f.keys then k ∈ f.errorKeys else ErrorAt map k := by
  cases f with
  | conflict key target kind => exact errorAt_set_one (by simp [MemberState.level,Finding.errorKeys])
  | sourceUnavailable key source reason =>
    exact errorAt_set_one (by simp [MemberState.level,Finding.errorKeys])
  | targetUnavailable key target reason =>
    exact errorAt_set_one (by simp [MemberState.level,Finding.errorKeys])
  | targetCollision target members kept =>
    rw [applyFinding,errorAt_collided,Finding.keys,Finding.errorKeys]
    by_cases hk : k ∈ members.filter fun k => some k ≠ kept
    · rw [if_pos hk]
      exact iff_of_true (.inl hk) hk
    · rw [if_neg hk,or_iff_right hk]
  | relocationBlocked key oldTarget =>
    exact errorAt_set_one (by simp [MemberState.level,Finding.errorKeys])

/-- The last finding about a member. -/
def lastAbout (k : RecordKey) (findings : List Finding) : Option Finding :=
  (findings.filter fun f => k ∈ f.keys).getLast?

theorem lastAbout_append (k : RecordKey) (fs gs : List Finding) :
    lastAbout k (fs++gs) = (lastAbout k gs).or (lastAbout k fs) := by
  simp [lastAbout,List.getLast?_append]

theorem lastAbout_mem {k : RecordKey} {findings : List Finding} {f : Finding}
    (h : lastAbout k findings = some f) : f ∈ findings ∧ k ∈ f.keys := by
  simpa using List.mem_of_getLast? h

theorem lastAbout_eq_none {k : RecordKey} {findings : List Finding} :
    lastAbout k findings = none ↔ ∀ f ∈ findings, k ∉ f.keys := by
  simp [lastAbout]

/-- The last finding about a member decides its entry. -/
theorem errorAt_findings {map : StatusMap} {findings : List Finding} {k : RecordKey} :
    ErrorAt (applyFindings map findings true) k ↔
      (∃ f, lastAbout k findings = some f ∧ k ∈ f.errorKeys) ∨
        lastAbout k findings = none ∧ ErrorAt map k := by
  induction findings using List.reverseRecOn with
  | nil => simp [applyFindings,lastAbout]
  | append_singleton findings f ih =>
    have hlast : lastAbout k [f] = if k ∈ f.keys then some f else none := by
      by_cases hk : k ∈ f.keys <;> simp [lastAbout,hk]
    rw [applyFindings,List.foldl_append,List.foldl_cons,List.foldl_nil,errorAt_finding,
      lastAbout_append,hlast]
    by_cases hk : k ∈ f.keys
    · simp [hk]
    · simpa [hk,applyFindings] using ih

/-! ### The findings of a plan about one member -/

section

variable {input : PlanInput} {d : DesiredMount} {f g : Finding} {k : RecordKey}

/-- There is at most one finding about a member that is accepted. -/
theorem memberFindings_unique (hf : f ∈ memberFindings input d) (hg : g ∈ memberFindings input d) :
    f = g := by
  have hlen : (memberFindings input d).length ≤ 1 := by
    have hs : (sourceFindings input d).length ≤ 1 := by
      unfold sourceFindings
      split <;> simp
    unfold memberFindings
    split
    · unfold recordedFindings
      split
      · split <;> simp
      · exact hs
      · simp
    · unfold unrecordedFindings
      split
      · simp
      · split
        · simp
        · split
          · exact hs
          · simp
  match hm : memberFindings input d with
  | [] => simp [hm] at hf
  | [x] =>
    rw [hm,List.mem_singleton] at hf hg
    rw [hf,hg]
  | x::y::rest => simp [hm] at hlen

/-- The relocation of a member whose old target cannot be inspected is blocked. -/
theorem memberFindings_of_departFinding {r : MountRecord} (hd : Accepts input d)
    (hr : r ∈ input.state.records) (hk : r.key = d.key) (hf : departFinding input r = some f) :
    memberFindings input d = [.relocationBlocked d.key r.targetLocation] := by
  have hget : input.state.get d.key = some r := by
    rw [← hk]
    exact State.mem_records.mp hr
  obtain ⟨hdep,-⟩ := departFinding_departs hf
  have hnone : recordHere input d = none := by
    cases hh : recordHere input d with
    | none => rfl
    | some q =>
      have hq := (recordHere_iff.mp hh).1
      rw [hget] at hq
      cases hq
      rw [not_departs_of_recordHere hd hh] at hdep
      cases hdep
  have hblocked : blocked input d.key = true := by
    refine (blocked_iff hd hnone).mpr ⟨r,hget,?_⟩
    unfold departFinding at hf
    rw [if_pos hdep] at hf
    split at hf
    · rename_i reason ht
      exact ⟨reason,ht⟩
    · cases hf
  simp [memberFindings,hnone,unrecordedFindings,hblocked,hget]

/-- The relocation of the member is reported as blocked. -/
def Plan.Blocks (p : Plan) (k : RecordKey) : Prop :=
  ∃ oldTarget, .relocationBlocked k oldTarget ∈ p.findings

theorem collisionFinding_eq {t : Location} {members : List DesiredMount}
    (h : collisionFinding input t members = some f) : ∃ ks kept, f = .targetCollision t ks kept := by
  unfold collisionFinding at h
  split at h
  · cases h
  · cases h
    exact ⟨_,_,rfl⟩

theorem departFinding_eq {r : MountRecord} (h : departFinding input r = some f) :
    ∃ reason, f = .targetUnavailable r.key r.targetLocation reason := by
  unfold departFinding at h
  split_ifs at h
  split at h
  · cases h
    exact ⟨_,rfl⟩
  · cases h

/-- A finding about one member that is no error about it is a finding about a kept member. -/
theorem mem_memberFindings (hf : f ∈ plannedFindings input) (hk : k ∈ f.keys)
    (hne : k ∉ f.errorKeys) : ∃ d, Accepts input d ∧ d.key = k ∧ f ∈ memberFindings input d := by
  rcases mem_plannedFindings.mp hf with ⟨e,-,hc⟩ | ⟨r,-,hd⟩ | ⟨d,hd,hm⟩
  · obtain ⟨ks,kept,rfl⟩ := collisionFinding_eq hc
    exact absurd hk hne
  · obtain ⟨reason,rfl⟩ := departFinding_eq hd
    exact absurd hk hne
  · rw [memberFindings_keys hm,List.mem_singleton] at hk
    exact ⟨d,hd,hk.symm,hm⟩

variable (hkeys : (input.desired.map DesiredMount.key).Nodup)
include hkeys

theorem accepts_unique {e : DesiredMount} (hd : Accepts input d) (he : Accepts input e)
    (hk : d.key = e.key) : d = e :=
  List.inj_on_of_nodup_map hkeys hd.mem he.mem hk

/-- An error about a kept member is its only finding, unless its relocation is blocked. -/
theorem error_of_accepted (hd : Accepts input d) (hf : f ∈ plannedFindings input)
    (he : d.key ∈ f.errorKeys) :
    f ∈ memberFindings input d ∨
      ∃ oldTarget, memberFindings input d = [.relocationBlocked d.key oldTarget] := by
  rcases mem_plannedFindings.mp hf with ⟨e,hmem,hc⟩ | ⟨r,hr,hdep⟩ | ⟨e,hacc,hm⟩
  · exfalso
    obtain ⟨ks,kept,rfl⟩ := collisionFinding_eq hc
    obtain ⟨d',hd',-,hk,hne⟩ := mem_collisions.mp ⟨e,hmem,_,hc,he⟩
    rw [List.inj_on_of_nodup_map hkeys hd' hd.mem hk,hd.1] at hne
    exact hne rfl
  · obtain ⟨reason,rfl⟩ := departFinding_eq hdep
    have hk : r.key = d.key := (List.mem_singleton.mp he).symm
    exact .inr ⟨_,memberFindings_of_departFinding hd hr hk hdep⟩
  · have hk : d.key ∈ f.keys := by
      cases f <;> simp_all [Finding.errorKeys,Finding.keys]
    rw [memberFindings_keys hm,List.mem_singleton] at hk
    rw [accepts_unique hkeys hd hacc hk]
    exact .inl hm

/-- All findings about a member are errors if one is, unless its relocation is blocked. -/
theorem errors_of_error (hf : f ∈ plannedFindings input) (he : k ∈ f.errorKeys)
    (hnb : ∀ oldTarget, .relocationBlocked k oldTarget ∉ plannedFindings input)
    (hg : g ∈ plannedFindings input) (hk : k ∈ g.keys) : k ∈ g.errorKeys := by
  by_contra hne
  obtain ⟨d,hd,rfl,hm⟩ := mem_memberFindings hg hk hne
  rcases error_of_accepted hkeys hd hf he with hfm | ⟨oldTarget,hblock⟩
  · rw [memberFindings_unique hfm hm] at he
    exact hne he
  · refine hnb oldTarget (mem_plannedFindings.mpr (.inr (.inr ⟨d,hd,?_⟩)))
    rw [hblock]
    exact List.mem_singleton_self _

/-- The last finding about a member whose relocation is blocked says so. -/
theorem lastAbout_of_blocked {oldTarget : Location}
    (h : .relocationBlocked k oldTarget ∈ plannedFindings input) :
    lastAbout k (plannedFindings input) = some (.relocationBlocked k oldTarget) := by
  obtain ⟨d,hd,rfl,hm⟩ := mem_memberFindings (k := k) h (by simp [Finding.keys])
    (by simp [Finding.errorKeys])
  have hmembers : lastAbout d.key
      ((accepted input).toList.flatMap fun e => memberFindings input e.2) =
        some (.relocationBlocked d.key oldTarget) := by
    cases hl : lastAbout d.key
        ((accepted input).toList.flatMap fun e => memberFindings input e.2) with
    | none =>
      have hno := lastAbout_eq_none.mp hl (.relocationBlocked d.key oldTarget)
        (List.mem_flatMap.mpr ⟨(d.key,d),mem_accepted.mpr ⟨rfl,hd⟩,hm⟩)
      simp [Finding.keys] at hno
    | some g =>
      obtain ⟨hg,hk⟩ := lastAbout_mem hl
      obtain ⟨e,he,hge⟩ := List.mem_flatMap.mp hg
      rw [memberFindings_keys hge,List.mem_singleton] at hk
      rw [← accepts_unique hkeys hd (mem_accepted.mp he).2 hk] at hge
      rw [memberFindings_unique hge hm]
  rw [plannedFindings,lastAbout_append,hmembers,Option.some_or]

end

/-! ### The whole report -/

theorem keys_notFrozen {input : PlanInput} {f : Finding} {k : RecordKey}
    (hf : f ∈ plannedFindings input) (hk : k ∈ f.keys) : k.group ∉ input.frozenGroups := by
  rcases mem_plannedFindings.mp hf with ⟨e,he,hc⟩ | ⟨r,-,hd⟩ | ⟨d,hd,hm⟩
  · obtain ⟨d,-,hfr,rfl,-⟩ := mem_collisions.mp ⟨e,he,f,hc,hk⟩
    exact hfr
  · obtain ⟨hdep,hkeys⟩ := departFinding_departs hd
    rw [hkeys,List.mem_singleton] at hk
    rw [hk]
    exact (departs_iff.mp hdep).1
  · rw [memberFindings_keys hm,List.mem_singleton] at hk
    rw [hk]
    exact hd.notFrozen

theorem Finding.keys_of_errorKeys {f : Finding} {k : RecordKey} (h : k ∈ f.errorKeys) :
    k ∈ f.keys := by
  cases f <;> simp_all [errorKeys,keys]

/-- A member's entry is an error iff its record is frozen, or there is an error about it and its
relocation is not blocked. -/
theorem errorAt_statusMap {observed : Observed} {state : State} {k : RecordKey}
    (hkeys : (observed.desired.map DesiredMount.key).Nodup) :
    ErrorAt (statusMap observed (plan (observed.planInput state)) state true) k ↔
      (∃ r ∈ state.records, r.group ∈ observed.frozen ∧ r.key = k) ∨
        (∃ f ∈ (plan (observed.planInput state)).findings, k ∈ f.errorKeys) ∧
          ¬(plan (observed.planInput state)).Blocks k := by
  unfold statusMap Plan.Blocks
  rw [errorAt_findings,errorAt_steps,errorAt_records,plan_findings]
  constructor
  · rintro (⟨f,hl,he⟩ | ⟨hl,-,hr | hd⟩)
    · refine .inr ⟨⟨f,(lastAbout_mem hl).1,he⟩,?_⟩
      rintro ⟨oldTarget,hb⟩
      rw [lastAbout_of_blocked hkeys hb,Option.some.injEq] at hl
      rw [← hl] at he
      cases he
    · exact .inl hr
    · exact absurd hd (not_errorAt_desired _ k)
  · rintro (⟨r,hr,hf,rfl⟩ | ⟨⟨f,hf,he⟩,hnb⟩)
    · refine .inr ⟨?_,?_,.inl ⟨r,hr,hf,rfl⟩⟩
      · exact lastAbout_eq_none.mpr fun g hg hk => keys_notFrozen hg hk hf
      · rintro s hs hk
        have hnf := plan_notFrozen (List.mem_map.mpr ⟨s,hs,rfl⟩)
        rw [hk] at hnf
        exact hnf hf
    · cases hl : lastAbout k (plannedFindings (observed.planInput state)) with
      | none => exact absurd (Finding.keys_of_errorKeys he) (lastAbout_eq_none.mp hl f hf)
      | some g =>
        obtain ⟨hg,hk⟩ := lastAbout_mem hl
        exact .inl ⟨g,rfl,errors_of_error hkeys hf he (fun o ho => hnb ⟨o,ho⟩) hg hk⟩

/-- A conflict, a target that cannot be inspected or a member that is not the kept one at its
target is found, or a record's group is frozen. -/
def HasError (observed : Observed) (plan : Plan) (state : State) : Prop :=
  (∃ f ∈ plan.findings, ∃ k, k ∈ f.errorKeys) ∨ ∃ r ∈ state.records, r.group ∈ observed.frozen

/-- Errors are found, all of them about members whose relocation is blocked, and neither a frozen
record nor an unavailable group makes up for them. -/
structure ErrorsMasked (observed : Observed) (plan : Plan) (state : State)
    (unavailable : Std.ExtTreeMap Text String) : Prop where
  found : ∃ f ∈ plan.findings, ∃ k, k ∈ f.errorKeys
  blocked : ∀ f ∈ plan.findings, ∀ k ∈ f.errorKeys, plan.Blocks k
  thawed : ∀ r ∈ state.records, r.group ∉ observed.frozen
  available : unavailable.isEmpty = true

theorem level_eq_error_iff {observed : Observed} {state : State}
    {unavailable : Std.ExtTreeMap Text String}
    (hkeys : (observed.desired.map DesiredMount.key).Nodup) :
    (StatusReport.mk unavailable
      (memberStatuses observed (plan (observed.planInput state)) state true)).level = .error ↔
        unavailable.isEmpty = false ∨ (∃ r ∈ state.records, r.group ∈ observed.frozen) ∨
          ∃ f ∈ (plan (observed.planInput state)).findings, ∃ k ∈ f.errorKeys,
            ¬(plan (observed.planInput state)).Blocks k := by
  have hmember : (∃ m ∈ memberStatuses observed (plan (observed.planInput state)) state true,
      m.state.level = .error) ↔
        ∃ k, ErrorAt (statusMap observed (plan (observed.planInput state)) state true) k := by
    constructor
    · rintro ⟨m,hm,he⟩
      rcases mem_memberStatuses.mp hm with ⟨k,hk⟩ | ⟨n,-,hn⟩
      · exact ⟨k,m,hk,he⟩
      · rw [noteStatus_rejected hn] at he
        cases he
    · rintro ⟨k,m,hk,he⟩
      exact ⟨m,mem_memberStatuses.mpr (.inl ⟨k,hk⟩),he⟩
  rw [StatusReport.level_eq_error,hmember]
  apply or_congr_right
  simp only [errorAt_statusMap hkeys,exists_or]
  apply or_congr
  · constructor
    · rintro ⟨-,r,hr,hf,-⟩
      exact ⟨r,hr,hf⟩
    · rintro ⟨r,hr,hf⟩
      exact ⟨r.key,r,hr,hf,rfl⟩
  · constructor
    · rintro ⟨k,⟨f,hf,hk⟩,hb⟩
      exact ⟨f,hf,k,hk,hb⟩
    · rintro ⟨f,hf,k,hk,hb⟩
      exact ⟨k,⟨f,hf,hk⟩,hb⟩

/-- With known ownership an error makes the status an error, unless it is masked. -/
theorem errors_shown_iff {H : Type} (env : PassEnv H) (runtime : Runtime H) (state : State)
    (degraded : Degraded) (unavailable : Std.ExtTreeMap Text String) :
    let observed := (discoverAndObserve env runtime state degraded).2
    let plan := plan (observed.planInput state)
    (HasError observed plan state →
      (StatusReport.mk unavailable (memberStatuses observed plan state true)).level = .error) ↔
        ¬ErrorsMasked observed plan state unavailable := by
  intro observed plan
  rw [level_eq_error_iff desired_keys_nodup]
  constructor
  · rintro h ⟨hfound,hblocked,hthawed,havailable⟩
    rcases h (.inl hfound) with hu | ⟨r,hr,hf⟩ | ⟨f,hf,k,hk,hb⟩
    · rw [havailable] at hu
      cases hu
    · exact hthawed r hr hf
    · exact hb (hblocked f hf k hk)
  · rintro hmasked (hfound | hfrozen)
    · by_contra hno
      simp only [not_or,Bool.not_eq_false] at hno
      obtain ⟨havailable,hthawed,hblocked⟩ := hno
      refine hmasked ⟨hfound,fun f hf k hk => ?_,fun r hr hf => hthawed ⟨r,hr,hf⟩,havailable⟩
      by_contra hb
      exact hblocked ⟨f,hf,k,hk,hb⟩
    · exact .inr (.inl hfrozen)

/-! A member whose old target cannot be inspected is desired at another one. -/
namespace SampleMasked

open Sample UntypedEntry

def oldTarget : Location := view "old"

/-- The group `a` has the member `b`. -/
def env : PassEnv ℕ where
  readDir := fun dir => .ok (if dir = 0 then [[97]] else [[98]],none)
  statx := fun dir _ => .ok (if dir = 0 then .directory else .regular 0)
  openDir := fun _ _ => .ok 1
  isDeleted := fun _ => .ok false
  strerror := fun _ => "Input/output error (os error 5)"
  rootError := fun _ => none
  resolveDir := fun _ => .ok (dir 42)
  inspect := fun l => if l = oldTarget then .unavailable "Permission denied" else .notMounted

def recorded : State := state [record UntypedEntry.group b "old" 7 42]

theorem error_masked : ¬∀ (env : PassEnv ℕ) (runtime : Runtime ℕ) (state : State)
    (degraded : Degraded) (unavailable : Std.ExtTreeMap Text String),
    let observed := (discoverAndObserve env runtime state degraded).2
    let plan := plan (observed.planInput state)
    HasError observed plan state →
      (StatusReport.mk unavailable (memberStatuses observed plan state true)).level = .error := by
  intro h
  have hlevel : (StatusReport.mk ∅ (memberStatuses
      (discoverAndObserve env (runtimeOf set) recorded ⟨∅,∅⟩).2
      (plan ((discoverAndObserve env (runtimeOf set) recorded ⟨∅,∅⟩).2.planInput recorded))
      recorded true)).level = .warn := by
    decide +kernel
  rw [h env (runtimeOf set) recorded ⟨∅,∅⟩ ∅ ?_] at hlevel
  · cases hlevel
  · refine .inl ⟨.targetUnavailable ⟨UntypedEntry.group,b⟩ oldTarget "Permission denied",?_,
      ⟨UntypedEntry.group,b⟩,List.mem_singleton_self _⟩
    decide +kernel

end SampleMasked
end Byssus
