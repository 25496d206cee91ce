import Byssus.Healthy
import Byssus.Notes
import Byssus.StateFile

/-! The status report about members.
Every desired member is first taken to be mounted; frozen records, the steps of a plan that is
not executed and its findings then overwrite that. -/
namespace Byssus

/-- The state of one member. -/
inductive MemberState
  | mounted
  | wouldMount
  | wouldRemount
  | wouldUnmount
  | staleRecord
  | conflict
  | mountedOwnershipUnknown
  | sourceUnavailable
  | targetUnavailable
  | collision
  | relocationBlocked
  | groupUnavailable
  | rejected
  deriving DecidableEq

structure MemberStatus where
  group : Text
  name : Text
  target : Option Text
  state : MemberState
  detail : Option String
  deriving DecidableEq

/-- `BTreeMap<RecordKey, MemberStatus>`. -/
abbrev StatusMap := Std.ExtTreeMap RecordKey MemberStatus

/-- `set`. -/
def StatusMap.set (map : StatusMap) (key : RecordKey) (target : Text) (state : MemberState)
    (detail : Option String) : StatusMap :=
  map.insert key ⟨key.group.display,key.name.text,some target,state,detail⟩

/-- The loop over the desired members. -/
def desiredStatuses (desired : List DesiredMount) : StatusMap :=
  desired.foldl (fun map d => map.set d.key d.target.display .mounted none) ∅

/-- One iteration of the loop over the records. -/
def recordStatus (frozen : Finset GroupId) (map : StatusMap) (record : MountRecord) : StatusMap :=
  if record.group ∈ frozen then
    map.set record.key record.targetLocation.display .groupUnavailable none
  else map

/-- One iteration of the loop over the steps, with the keys that are unmounted so far. -/
def stepStatus (acc : StatusMap × List RecordKey) (step : Step) : StatusMap × List RecordKey :=
  let (map,unmounting) := acc
  match step.action with
  | .unmount record reason =>
    let detail := match reason with
      | .sourceGone e => some e
      | _ => none
    (map.set record.key record.targetLocation.display .wouldUnmount detail,
      unmounting++[record.key])
  | .dropRecord record _ =>
    (map.set record.key record.targetLocation.display .staleRecord none,unmounting)
  | .mount desired =>
    let state := if desired.key ∈ unmounting then .wouldRemount else .wouldMount
    (map.set desired.key desired.target.display state none,unmounting)

/-- One iteration of the loop of `apply_findings`. -/
def applyFinding (ownershipKnown : Bool) (map : StatusMap) (finding : Finding) : StatusMap :=
  match finding with
  | .conflict key target kind =>
    let state :=
      if ownershipKnown = false ∧ kind = .foreignMount then .mountedOwnershipUnknown else .conflict
    map.set key target.display state none
  | .sourceUnavailable key source reason =>
    let target := (map[key]?.bind MemberStatus.target).getD source.display
    map.set key target .sourceUnavailable (some reason)
  | .targetUnavailable key target reason =>
    map.set key target.display .targetUnavailable (some reason)
  | .targetCollision target members kept =>
    (members.filter fun k => some k ≠ kept).foldl (fun map key =>
      map.set key target.display .collision
        (kept.map fun k => "target kept by " ++ String.ofList k.display)) map
  | .relocationBlocked key oldTarget =>
    map.set key oldTarget.display .relocationBlocked none

/-- `apply_findings`. -/
def applyFindings (map : StatusMap) (findings : List Finding) (ownershipKnown : Bool) : StatusMap :=
  findings.foldl (applyFinding ownershipKnown) map

/-- The status of a rejected entry; other notes have none. -/
def noteStatus : Note → Option MemberStatus
  | .rejected group rejection =>
    some ⟨group.display,rejection.displayName,none,.rejected,some rejection.reason.message⟩
  | .interpolationFailed group name field error =>
    some ⟨group.display,name.text,none,.rejected,some (templateMessage field error)⟩
  | .setEntryRejected set rejection =>
    some ⟨setLabel set.text,rejection.displayName,none,.rejected,some rejection.reason.message⟩
  | .membershipDeleted _ => none
  | .membershipUnreadable _ _ => none
  | .setRootDeleted _ => none
  | .setRootUnreadable _ _ => none

/-- The members' statuses, by key. -/
def statusMap (observed : Observed) (plan : Plan) (state : State) (ownershipKnown : Bool) :
    StatusMap :=
  let map := desiredStatuses observed.desired
  let map := state.records.foldl (recordStatus observed.frozen) map
  let map := (plan.steps.foldl stepStatus (map,[])).1
  applyFindings map plan.findings ownershipKnown

/-- `member_statuses`: sorted by group and name. -/
def memberStatuses (observed : Observed) (plan : Plan) (state : State) (ownershipKnown : Bool) :
    List MemberStatus :=
  let statuses := (statusMap observed plan state ownershipKnown).toList.map Prod.snd
  let statuses := statuses++observed.notes.filterMap noteStatus
  statuses.insertionSort fun a b =>
    (compareLex (compareOn MemberStatus.group) (compareOn MemberStatus.name) a b).isLE = true

/-- What the planner gets from the observation. -/
def Observed.planInput (observed : Observed) (state : State) : PlanInput :=
  ⟨observed.desired,state,observed.frozen,observed.observations⟩

/-! ### Entries that are overwritten -/

/-- The entry is labelled as the member `k`. -/
def MemberStatus.For (s : MemberStatus) (k : RecordKey) : Prop :=
  s.group = k.group.display ∧ s.name = k.name.text

/-- The members `keys` get an entry that is neither mounted nor rejected; the others keep
theirs. -/
structure Marks (map map' : StatusMap) (keys : List RecordKey) : Prop where
  marked : ∀ k ∈ keys, ∃ s, map'[k]? = some s ∧ s.For k ∧ s.state ≠ .mounted ∧ s.state ≠ .rejected
  kept : ∀ k ∉ keys, map'[k]? = map[k]?

namespace Marks

theorem refl (map : StatusMap) : Marks map map [] := ⟨by simp,fun _ _ => rfl⟩

theorem set (map : StatusMap) (key : RecordKey) (target : Text) {state : MemberState}
    (detail : Option String) (hm : state ≠ .mounted) (hr : state ≠ .rejected) :
    Marks map (map.set key target state detail) [key] where
  marked := by
    intro k hk
    rw [List.mem_singleton.mp hk]
    exact ⟨_,Std.ExtTreeMap.getElem?_insert_self,⟨rfl,rfl⟩,hm,hr⟩
  kept := by
    intro k hk
    have hne : key ≠ k := fun h => hk (by simp [h])
    simp [StatusMap.set,Std.ExtTreeMap.getElem?_insert,hne]

theorem trans {m₁ m₂ m₃ : StatusMap} {xs ys : List RecordKey} (h₁ : Marks m₁ m₂ xs)
    (h₂ : Marks m₂ m₃ ys) : Marks m₁ m₃ (xs++ys) where
  marked := by
    intro k hk
    by_cases hy : k ∈ ys
    · exact h₂.marked k hy
    · rw [h₂.kept k hy]
      exact h₁.marked k ((List.mem_append.mp hk).resolve_right hy)
  kept := by
    intro k hk
    rw [List.mem_append,not_or] at hk
    rw [h₂.kept k hk.2,h₁.kept k hk.1]

/-- A loop marks what its iterations mark; `g` is the map in the loop's state. -/
theorem foldl {α β : Type*} {f : β → α → β} {g : β → StatusMap} {keys : α → List RecordKey}
    (hf : ∀ b a, Marks (g b) (g (f b a)) (keys a)) (l : List α) (b : β) :
    Marks (g b) (g (l.foldl f b)) (l.flatMap keys) := by
  induction l generalizing b with
  | nil => exact refl (g b)
  | cons a l ih => exact (hf b a).trans (ih (f b a))

end Marks

theorem recordStatus_marks (frozen : Finset GroupId) (map : StatusMap) (r : MountRecord) :
    Marks map (recordStatus frozen map r) (if r.group ∈ frozen then [r.key] else []) := by
  unfold recordStatus
  by_cases h : r.group ∈ frozen
  · simpa [h] using Marks.set map r.key _ none (by decide) (by decide)
  · simpa [h] using Marks.refl map

theorem stepStatus_marks (acc : StatusMap × List RecordKey) (step : Step) :
    Marks acc.1 (stepStatus acc step).1 [step.action.key] := by
  obtain ⟨map,unmounting⟩ := acc
  obtain ⟨action,deps⟩ := step
  cases action with
  | unmount r reason => exact Marks.set map r.key _ _ (by decide) (by decide)
  | dropRecord r reason => exact Marks.set map r.key _ none (by decide) (by decide)
  | mount d =>
    by_cases h : d.key ∈ unmounting <;> simp only [stepStatus,h,if_true,if_false] <;>
      exact Marks.set map d.key _ none (by decide) (by decide)

/-- The members a finding marks. -/
def Finding.keys : Finding → List RecordKey
  | .conflict key _ _ => [key]
  | .sourceUnavailable key _ _ => [key]
  | .targetUnavailable key _ _ => [key]
  | .targetCollision _ members kept => members.filter fun k => some k ≠ kept
  | .relocationBlocked key _ => [key]

theorem applyFinding_marks (known : Bool) (map : StatusMap) (f : Finding) :
    Marks map (applyFinding known map f) f.keys := by
  cases f with
  | conflict key target kind =>
    by_cases h : known = false ∧ kind = .foreignMount
    · simp only [applyFinding,h,and_self,if_true]
      exact Marks.set map key _ none (by decide) (by decide)
    · simp only [applyFinding,h,if_false]
      exact Marks.set map key _ none (by decide) (by decide)
  | sourceUnavailable key source reason =>
    exact Marks.set map key _ (some reason) (by decide) (by decide)
  | targetUnavailable key target reason => exact Marks.set map key _ _ (by decide) (by decide)
  | targetCollision target members kept =>
    have hset : ∀ (map : StatusMap) (key : RecordKey), Marks (id map) (id (map.set key target.display
        .collision (kept.map fun k => "target kept by " ++ String.ofList k.display))) [key] :=
      fun map key => Marks.set map key _ _ (by decide) (by decide)
    have h := Marks.foldl hset (members.filter fun k => some k ≠ kept) map
    rwa [List.flatMap_singleton'] at h
  | relocationBlocked key oldTarget => exact Marks.set map key _ none (by decide) (by decide)

/-- The desired members are mounted until something else is known of them. -/
theorem desiredStatuses_get (desired : List DesiredMount) (k : RecordKey) :
    (k ∈ desired.map DesiredMount.key →
      ∃ s, (desiredStatuses desired)[k]? = some s ∧ s.For k ∧ s.state = .mounted) ∧
    (k ∉ desired.map DesiredMount.key → (desiredStatuses desired)[k]? = none) := by
  unfold desiredStatuses
  refine Lists.foldl_induction (P := fun done (map : StatusMap) =>
    (k ∈ done.map DesiredMount.key → ∃ s, map[k]? = some s ∧ s.For k ∧ s.state = .mounted) ∧
    (k ∉ done.map DesiredMount.key → map[k]? = none)) (by simp) ?_ desired
  rintro done d map ⟨hin,hout⟩
  simp only [StatusMap.set,Std.ExtTreeMap.getElem?_insert,List.map_append,List.map_cons,
    List.map_nil,List.mem_append,List.mem_singleton,Std.LawfulEqCmp.compare_eq_iff_eq]
  by_cases h : d.key = k
  · subst h
    simp [MemberStatus.For]
  · simp only [h,Ne.symm h,if_false,or_false]
    exact ⟨hin,hout⟩

/-! ### Which members are marked -/

/-- The members whose entry is overwritten. -/
def markedKeys (input : PlanInput) : List RecordKey :=
  (input.state.records.flatMap fun r => if r.group ∈ input.frozenGroups then [r.key] else []) ++
    ((plan input).steps.flatMap fun s => [s.action.key]) ++
    (plan input).findings.flatMap Finding.keys

/-- The members whose entry a plan overwrites. -/
theorem statusMap_overwrites (observed : Observed) (plan : Plan) (state : State) (known : Bool) :
    Marks (desiredStatuses observed.desired) (statusMap observed plan state known)
      ((state.records.flatMap fun r => if r.group ∈ observed.frozen then [r.key] else []) ++
        (plan.steps.flatMap fun s => [s.action.key]) ++ plan.findings.flatMap Finding.keys) := by
  have h₁ := Marks.foldl (g := id) (recordStatus_marks observed.frozen) state.records
    (desiredStatuses observed.desired)
  have h₂ := Marks.foldl (g := Prod.fst) stepStatus_marks plan.steps
    (state.records.foldl (recordStatus observed.frozen) (desiredStatuses observed.desired),[])
  have h₃ := Marks.foldl (g := id) (applyFinding_marks known) plan.findings
    (plan.steps.foldl stepStatus
      (state.records.foldl (recordStatus observed.frozen) (desiredStatuses observed.desired),[])).1
  exact (h₁.trans h₂).trans h₃

theorem statusMap_marks (observed : Observed) (state : State) (known : Bool) :
    Marks (desiredStatuses observed.desired)
      (statusMap observed (plan (observed.planInput state)) state known)
      (markedKeys (observed.planInput state)) :=
  statusMap_overwrites observed (plan (observed.planInput state)) state known

/-- The planner has nothing to do and nothing to report for exactly the healthy members. -/
theorem silent_iff_healthy {input : PlanInput} {d : DesiredMount} :
    memberActions input d = [] ∧ memberFindings input d = [] ↔ ∃ r, Healthy input d r := by
  constructor
  · rintro ⟨ha,hf⟩
    unfold memberActions at ha
    unfold memberFindings at hf
    cases hr : recordHere input d with
    | some r =>
      simp only [hr,recordedActions,recordedFindings] at ha hf
      cases ht : input.target d.target with
      | notMounted =>
        simp only [ht,sourceFindings] at ha hf
        cases hs : input.source d.key <;> simp [hs] at ha
      | mounted identity attrs =>
        simp only [ht] at ha hf
        by_cases hi : identity.matches r.identity = true
        · simp only [hi,if_true] at ha
          cases hs : input.source d.key with
          | unavailable reason => simp [hs] at ha
          | resolved root =>
            simp only [hs] at ha
            by_cases hroot : root = r.identity.root
            · simp only [hroot,if_true] at ha
              have hattr : r.attrs = d.attrs := by
                by_contra hne
                simp [attributeReason,hne] at ha
              refine ⟨r,hr,⟨identity,attrs,ht,hi,?_⟩,by rw [hs,hroot],hattr⟩
              rintro o rfl
              cases he : o.enforce d.attrs with
              | true => rfl
              | false => simp [attributeReason,hattr,he] at ha
            · simp [hroot] at ha
        · simp [hi] at hf
      | unavailable reason => simp [ht] at hf
    | none =>
      simp only [hr,unrecordedActions,unrecordedFindings] at ha hf
      by_cases hb : blocked input d.key = true
      · simp [hb] at hf
      · by_cases hv : vacated input d.target = true
        · cases hs : input.source d.key with
          | resolved root => simp [hb,hv,hs] at ha
          | unavailable reason =>
            cases ht : input.target d.target <;> simp [hb,hv,ht,hs,sourceFindings] at hf
        · cases ht : input.target d.target <;> simp [hb,hv,ht] at hf
  · rintro ⟨r,h⟩
    obtain ⟨identity,attrs,ht,hi,-⟩ := h.mounted
    exact ⟨h.memberActions_nil,by simp [memberFindings,h.recorded,recordedFindings,ht,hi]⟩

theorem memberFindings_keys {input : PlanInput} {d : DesiredMount} {f : Finding}
    (h : f ∈ memberFindings input d) : f.keys = [d.key] := by
  have hs : f ∈ sourceFindings input d → f.keys = [d.key] := by
    intro h
    unfold sourceFindings at h
    split at h
    · cases h
    · rw [List.mem_singleton.mp h]
      rfl
  unfold memberFindings at h
  split at h
  · unfold recordedFindings at h
    split at h
    · split_ifs at h
      · cases h
      · rw [List.mem_singleton.mp h]
        rfl
    · exact hs h
    · rw [List.mem_singleton.mp h]
      rfl
  · unfold unrecordedFindings at h
    split at h
    · rw [List.mem_singleton.mp h]
      rfl
    · split at h
      · rw [List.mem_singleton.mp h]
        rfl
      · split at h
        · exact hs h
        · rw [List.mem_singleton.mp h]
          rfl

theorem departFinding_departs {input : PlanInput} {r : MountRecord} {f : Finding}
    (h : departFinding input r = some f) : departs input r = true ∧ f.keys = [r.key] := by
  unfold departFinding at h
  split_ifs at h with hd
  split at h
  · cases h
    exact ⟨hd,rfl⟩
  · cases h

/-- A departing record has a step or a finding. -/
theorem departs_told {input : PlanInput} {r : MountRecord} (h : departs input r = true) :
    (∃ a, departAction input r = some a) ∨ ∃ f, departFinding input r = some f := by
  cases ha : departAction input r with
  | some a => exact .inl ⟨a,rfl⟩
  | none =>
    obtain ⟨reason,hu⟩ := (departAction_none_iff h).mp ha
    exact .inr ⟨_,by simp [departFinding,h,hu]; rfl⟩

/-- Reported as collided are the members that are not kept at their target. -/
theorem mem_collisions {input : PlanInput} {k : RecordKey} :
    (∃ e ∈ (byTarget input).toList, ∃ f, collisionFinding input e.1 e.2 = some f ∧ k ∈ f.keys) ↔
      ∃ d ∈ input.desired, d.key.group ∉ input.frozenGroups ∧ d.key = k ∧
        (chosen input d.target).map DesiredMount.key ≠ some k := by
  constructor
  · rintro ⟨⟨t,members⟩,he,f,hf,hk⟩
    rw [mem_byTarget he] at hf
    unfold collisionFinding at hf
    split at hf
    · cases hf
    · cases hf
      simp only [Finding.keys,List.mem_filter,List.mem_map,decide_eq_true_eq] at hk
      obtain ⟨⟨d,hd,rfl⟩,hne⟩ := hk
      obtain ⟨hmem,hfr,rfl⟩ := mem_membersAt.mp ((sortByKey_perm _).mem_iff.mp hd)
      exact ⟨d,hmem,hfr,rfl,fun h => hne h.symm⟩
  · rintro ⟨d,hd,hfr,rfl,hne⟩
    have hmem : d ∈ membersAt input d.target := mem_membersAt.mpr ⟨hd,hfr,rfl⟩
    refine ⟨(d.target,membersAt input d.target),?_,.targetCollision d.target
      ((sortByKey (membersAt input d.target)).map DesiredMount.key)
      ((chosen input d.target).map DesiredMount.key),?_,?_⟩
    · rw [Std.ExtTreeMap.mem_toList_iff_getElem?_eq_some,byTarget_get,Maps.nonempty_eq_some]
      exact ⟨List.ne_nil_of_mem hmem,rfl⟩
    · unfold collisionFinding
      split
      · rename_i e he
        exfalso
        apply hne
        simp only at he
        rw [he] at hmem
        unfold chosen
        rw [he,List.mem_singleton.mp hmem]
        rfl
      · rfl
    · simp only [Finding.keys,List.mem_filter,List.mem_map,decide_eq_true_eq]
      exact ⟨⟨d,(sortByKey_perm _).mem_iff.mpr hmem,rfl⟩,fun h => hne h.symm⟩

theorem mem_markedKeys {input : PlanInput} {k : RecordKey} :
    k ∈ markedKeys input ↔ (∃ r ∈ input.state.records, r.group ∈ input.frozenGroups ∧ r.key = k) ∨
      (∃ a ∈ plannedActions input, a.key = k) ∨ ∃ f ∈ plannedFindings input, k ∈ f.keys := by
  have hs : k ∈ ((plan input).steps.flatMap fun s => [s.action.key]) ↔
      ∃ a ∈ plannedActions input, a.key = k := by
    simp only [← mem_plan_actions,List.mem_flatMap,List.mem_singleton,List.mem_map]
    constructor
    · rintro ⟨s,hs,rfl⟩
      exact ⟨s.action,⟨s,hs,rfl⟩,rfl⟩
    · rintro ⟨a,⟨s,hs,rfl⟩,rfl⟩
      exact ⟨s,hs,rfl⟩
  have hr : (k ∈ input.state.records.flatMap fun r =>
      if r.group ∈ input.frozenGroups then [r.key] else []) ↔
      ∃ r ∈ input.state.records, r.group ∈ input.frozenGroups ∧ r.key = k := by
    simp only [List.mem_flatMap]
    refine exists_congr fun r => and_congr_right fun _ => ?_
    by_cases h : r.group ∈ input.frozenGroups <;> simp [h,eq_comm]
  rw [markedKeys,List.mem_append,List.mem_append,hs,hr,plan_findings,List.mem_flatMap,or_assoc]

theorem mem_plannedFindings {input : PlanInput} {f : Finding} : f ∈ plannedFindings input ↔
    (∃ e ∈ (byTarget input).toList, collisionFinding input e.1 e.2 = some f) ∨
      (∃ r ∈ input.state.records, departFinding input r = some f) ∨
      ∃ d, Accepts input d ∧ f ∈ memberFindings input d := by
  have hm : (f ∈ (accepted input).toList.flatMap fun e => memberFindings input e.2) ↔
      ∃ d, Accepts input d ∧ f ∈ memberFindings input d := by
    rw [List.mem_flatMap]
    constructor
    · rintro ⟨e,he,hf⟩
      exact ⟨e.2,(mem_accepted.mp he).2,hf⟩
    · rintro ⟨d,hd,hf⟩
      exact ⟨(d.key,d),mem_accepted.mpr ⟨rfl,hd⟩,hf⟩
  rw [plannedFindings,List.mem_append,List.mem_append,List.mem_filterMap,List.mem_filterMap,hm,
    or_assoc]

/-- Only entries of desired or recorded members are overwritten. -/
theorem markedKeys_subset {input : PlanInput} {k : RecordKey} (h : k ∈ markedKeys input) :
    k ∈ input.desired.map DesiredMount.key ∨ ∃ r ∈ input.state.records, r.key = k := by
  rcases mem_markedKeys.mp h with ⟨r,hr,-,hk⟩ | ⟨a,ha,hk⟩ | ⟨f,hf,hk⟩
  · exact .inr ⟨r,hr,hk⟩
  · rcases mem_plannedActions ha with ⟨r,hr,hra⟩ | ⟨d,hd,hda⟩
    · exact .inr ⟨r,hr,by rw [← hk,(departAction_removes hra).key_eq]⟩
    · rcases mem_memberActions hda with rfl | ⟨r,hr,hrem⟩
      · exact .inl (List.mem_map.mpr ⟨d,hd.mem,hk⟩)
      · exact .inr ⟨r,State.mem_records_of_get (recordHere_iff.mp hr).1,by rw [← hk,hrem.key_eq]⟩
  · rcases mem_plannedFindings.mp hf with ⟨e,he,hc⟩ | ⟨r,hr,hd⟩ | ⟨d,hd,hm⟩
    · obtain ⟨d,hd,-,hdk,-⟩ := mem_collisions.mp ⟨e,he,f,hc,hk⟩
      exact .inl (List.mem_map.mpr ⟨d,hd,hdk⟩)
    · rw [(departFinding_departs hd).2,List.mem_singleton] at hk
      exact .inr ⟨r,hr,hk.symm⟩
    · rw [memberFindings_keys hm,List.mem_singleton] at hk
      exact .inl (List.mem_map.mpr ⟨d,hd.mem,hk.symm⟩)

/-- The entry of a recorded member that is not desired is overwritten. -/
theorem marked_of_recorded {input : PlanInput} {r : MountRecord} (hr : r ∈ input.state.records)
    (hno : r.key ∉ input.desired.map DesiredMount.key) : r.key ∈ markedKeys input := by
  by_cases hf : r.group ∈ input.frozenGroups
  · exact mem_markedKeys.mpr (.inl ⟨r,hr,hf,rfl⟩)
  · have hd : departs input r = true := departs_iff.mpr
      ⟨hf,fun d hd hk => absurd (List.mem_map.mpr ⟨d,hd.mem,hk⟩) hno⟩
    rcases departs_told hd with ⟨a,ha⟩ | ⟨f,hfd⟩
    · exact mem_markedKeys.mpr (.inr (.inl ⟨a,mem_plannedActions_of_record hr ha,
        (departAction_removes ha).key_eq⟩))
    · refine mem_markedKeys.mpr (.inr (.inr ⟨f,mem_plannedFindings.mpr (.inr (.inl ⟨r,hr,hfd⟩)),?_⟩))
      rw [(departFinding_departs hfd).2]
      exact List.mem_singleton_self _

/-- A desired member that is not marked is healthy. -/
theorem healthy_of_unmarked {input : PlanInput} {d : DesiredMount}
    (hkeys : (input.desired.map DesiredMount.key).Nodup) (hd : d ∈ input.desired)
    (hf : d.key.group ∉ input.frozenGroups) (hno : d.key ∉ markedKeys input) :
    ∃ r, Healthy input d r := by
  have hc : chosen input d.target = some d := by
    by_contra hc
    have hne : (chosen input d.target).map DesiredMount.key ≠ some d.key := by
      intro h
      obtain ⟨e,he,hek⟩ := Option.map_eq_some_iff.mp h
      apply hc
      rw [he,List.inj_on_of_nodup_map hkeys (chosen_mem he).1 hd hek]
    obtain ⟨e,he,f,hcf,hk⟩ := mem_collisions.mpr ⟨d,hd,hf,rfl,hne⟩
    exact hno (mem_markedKeys.mpr (.inr (.inr ⟨f,mem_plannedFindings.mpr (.inl ⟨e,he,hcf⟩),hk⟩)))
  have hacc := (accepts_iff_chosen hkeys).mpr hc
  rw [← silent_iff_healthy,List.eq_nil_iff_forall_not_mem,List.eq_nil_iff_forall_not_mem]
  refine ⟨fun a ha => hno (mem_markedKeys.mpr (.inr (.inl ⟨a,?_⟩))),
    fun f hfm => hno (mem_markedKeys.mpr (.inr (.inr ⟨f,?_⟩)))⟩
  · refine ⟨mem_plannedActions_of_member hacc ha,?_⟩
    rcases mem_memberActions ha with rfl | ⟨r,hr,hrem⟩
    · rfl
    · rw [hrem.key_eq,State.key_of_get (recordHere_iff.mp hr).1]
  · refine ⟨mem_plannedFindings.mpr (.inr (.inr ⟨d,hacc,hfm⟩)),?_⟩
    rw [memberFindings_keys hfm]
    exact List.mem_singleton_self _

/-- Among members with distinct keys, the entries of those that are not healthy are
overwritten. -/
theorem marked_iff_not_healthy {input : PlanInput} {d : DesiredMount}
    (hkeys : (input.desired.map DesiredMount.key).Nodup) (hd : d ∈ input.desired)
    (hf : d.key.group ∉ input.frozenGroups)
    (hone : ∀ q ∈ input.state.records, ∀ r ∈ input.state.records,
      q.targetLocation = r.targetLocation → (input.target r.targetLocation).shows q = true →
      (input.target r.targetLocation).shows r = true → q = r) :
    d.key ∈ markedKeys input ↔ ¬∃ r, Healthy input d r := by
  have hunique : ∀ e ∈ input.desired, e.key = d.key → e = d :=
    fun e he hk => List.inj_on_of_nodup_map hkeys he hd hk
  constructor
  · rintro hm ⟨r,h⟩
    obtain ⟨hget,-,htl⟩ := recordHere_iff.mp h.recorded
    have hrmem := State.mem_records_of_get hget
    have hrk : r.key = d.key := State.key_of_get hget
    have hacc : Accepts input d := by
      refine h.accepts hd hf hunique fun q hq hql hqs => ?_
      have hrs := h.shows
      rw [← htl] at hql hqs hrs
      exact hone q hq r hrmem hql hqs hrs
    have hnot := not_departs_of_recordHere hacc h.recorded
    rcases mem_markedKeys.mp hm with ⟨q,hq,hqf,hk⟩ | ⟨a,ha,hk⟩ | ⟨f,hfm,hk⟩
    · have hqg : q.group = d.key.group := congrArg RecordKey.group hk
      rw [hqg] at hqf
      exact hf hqf
    · exact no_step_of_member hacc h.recorded h.memberActions_nil a ha hk
    · rcases mem_plannedFindings.mp hfm with ⟨e,he,hc⟩ | ⟨q,hq,hdep⟩ | ⟨e,he,hme⟩
      · obtain ⟨e',he',-,hek,hne⟩ := mem_collisions.mp ⟨e,he,f,hc,hk⟩
        rw [hunique e' he' hek,hacc.1] at hne
        exact hne rfl
      · obtain ⟨hdq,hkeys'⟩ := departFinding_departs hdep
        rw [hkeys',List.mem_singleton] at hk
        rw [State.eq_of_key_eq hq hrmem (hk.symm.trans hrk.symm),hnot] at hdq
        cases hdq
      · rw [memberFindings_keys hme,List.mem_singleton] at hk
        rw [hunique e he.mem hk.symm,(silent_iff_healthy.mpr ⟨r,h⟩).2] at hme
        cases hme
  · intro hn
    by_contra hm
    exact hn (healthy_of_unmarked hkeys hd hf hm)

/-! ### The report -/

/-- An entry is the one of at most one member. -/
theorem MemberStatus.For.key_eq {s : MemberStatus} {k k' : RecordKey} (h : s.For k)
    (h' : s.For k') (hk : k.group.Valid) (hk' : k'.group.Valid) : k = k' := by
  obtain ⟨g,n⟩ := k
  obtain ⟨g',n'⟩ := k'
  have hg : g = g' := GroupId.display_inj hk hk' (h.1.symm.trans h'.1)
  have hn : n = n' := Name.text_injective (h.2.symm.trans h'.2)
  rw [hg,hn]

/-- The member's entry in the map. -/
def StatusMap.status (map : StatusMap) (k : RecordKey) : MemberStatus :=
  map[k]?.getD ⟨[],[],none,.rejected,none⟩

theorem StatusMap.values_eq (map : StatusMap) :
    map.toList.map Prod.snd = map.keys.map map.status := by
  rw [← Std.ExtTreeMap.map_fst_toList_eq_keys,List.map_map]
  apply List.map_congr_left
  intro e he
  obtain ⟨k,s⟩ := e
  have hget : map[k]? = some s := Std.ExtTreeMap.mem_toList_iff_getElem?_eq_some.mp he
  simp [StatusMap.status,hget]

theorem noteStatus_rejected {n : Note} {s : MemberStatus} (h : noteStatus n = some s) :
    s.state = .rejected := by
  cases n <;> simp only [noteStatus,Option.some.injEq,reduceCtorEq] at h <;> rw [← h]

/-- The members of a report are those of its map, and those of the notes. -/
theorem mem_memberStatuses {observed : Observed} {plan : Plan} {state : State} {known : Bool}
    {m : MemberStatus} : m ∈ memberStatuses observed plan state known ↔
      (∃ k : RecordKey, (statusMap observed plan state known)[k]? = some m) ∨
        ∃ n ∈ observed.notes, noteStatus n = some m := by
  unfold memberStatuses
  rw [(List.perm_insertionSort _ _).mem_iff,List.mem_append,List.mem_filterMap,List.mem_map]
  apply or_congr_left
  constructor
  · rintro ⟨⟨k,m⟩,he,rfl⟩
    exact ⟨k,Std.ExtTreeMap.mem_toList_iff_getElem?_eq_some.mp he⟩
  · rintro ⟨k,hk⟩
    exact ⟨(k,m),Std.ExtTreeMap.mem_toList_iff_getElem?_eq_some.mpr hk,rfl⟩

section
variable (observed : Observed) (state : State) (known : Bool)

/-- The key of a desired or a recorded member. -/
def ReportedKey (k : RecordKey) : Prop :=
  (∃ d ∈ observed.desired, d.key = k) ∨ ∃ r ∈ state.records, r.key = k

variable {observed state}

/-- Every desired or recorded member has an entry, under its own name. -/
theorem statusMap_get {k : RecordKey} (h : ReportedKey observed state k) :
    ∃ s, (statusMap observed (plan (observed.planInput state)) state known)[k]? = some s ∧
      s.For k ∧ s.state ≠ .rejected ∧
      (s.state = .mounted ↔ k ∉ markedKeys (observed.planInput state)) := by
  have hmarks := statusMap_marks observed state known
  by_cases hk : k ∈ markedKeys (observed.planInput state)
  · obtain ⟨s,hs,hfor,hm,hr⟩ := hmarks.marked k hk
    exact ⟨s,hs,hfor,hr,by simp [hm,hk]⟩
  · have hd : k ∈ observed.desired.map DesiredMount.key := by
      rcases h with h | ⟨r,hr,rfl⟩
      · exact List.mem_map.mpr h
      · by_contra hd
        exact hk (marked_of_recorded hr hd)
    obtain ⟨s,hs,hfor,hm⟩ := (desiredStatuses_get observed.desired k).1 hd
    rw [← hmarks.kept k hk] at hs
    exact ⟨s,hs,hfor,by simp [hm],by simp [hm,hk]⟩

theorem mem_statusMap {k : RecordKey} :
    k ∈ (statusMap observed (plan (observed.planInput state)) state known).keys ↔
      ReportedKey observed state k := by
  rw [Std.ExtTreeMap.mem_keys,Std.ExtTreeMap.mem_iff_isSome_getElem?]
  constructor
  · intro h
    by_contra hno
    have hmarks := statusMap_marks observed state known
    have hd : k ∉ observed.desired.map DesiredMount.key := fun hd => hno (.inl (List.mem_map.mp hd))
    have hk : k ∉ markedKeys (observed.planInput state) :=
      fun hk => hno ((markedKeys_subset hk).imp_left List.mem_map.mp)
    rw [hmarks.kept k hk,(desiredStatuses_get observed.desired k).2 hd] at h
    cases h
  · intro h
    obtain ⟨s,hs,-⟩ := statusMap_get known h
    rw [hs]
    rfl

/-- The entries besides those of rejected ones are those of the map. -/
theorem memberStatuses_perm (p : Plan)
    (h : ∀ k ∈ (statusMap observed p state known).keys,
      ((statusMap observed p state known).status k).state ≠ .rejected) :
    ((memberStatuses observed p state known).filter fun s => s.state ≠ .rejected).Perm
      ((statusMap observed p state known).keys.map (statusMap observed p state known).status) := by
  have hentries : ((statusMap observed p state known).toList.map Prod.snd).filter
      (fun s => s.state ≠ .rejected) =
        (statusMap observed p state known).keys.map (statusMap observed p state known).status := by
    rw [StatusMap.values_eq,List.filter_eq_self]
    intro s hs
    obtain ⟨k,hk,rfl⟩ := List.mem_map.mp hs
    exact decide_eq_true (h k hk)
  have hnotes : (observed.notes.filterMap noteStatus).filter (fun s => s.state ≠ .rejected) = [] := by
    rw [List.filter_eq_nil_iff]
    intro s hs
    obtain ⟨n,-,hn⟩ := List.mem_filterMap.mp hs
    simp [noteStatus_rejected hn]
  have hall : ((statusMap observed p state known).toList.map Prod.snd++
      observed.notes.filterMap noteStatus).filter (fun s => s.state ≠ .rejected) =
        (statusMap observed p state known).keys.map (statusMap observed p state known).status := by
    rw [List.filter_append,hentries,hnotes,List.append_nil]
  rw [← hall]
  exact (List.perm_insertionSort _ _).filter _

end

/-- The report has one entry for each desired or recorded member besides those of rejected
entries, and says that a member is mounted iff it is desired and healthy. -/
theorem memberStatuses_truthful (observed : Observed) (state : State) (known : Bool)
    (hkeys : (observed.desired.map DesiredMount.key).Nodup)
    (hfrozen : ∀ d ∈ observed.desired, d.key.group ∉ observed.frozen)
    (hone : ∀ q ∈ state.records, ∀ r ∈ state.records, q.targetLocation = r.targetLocation →
      ((observed.planInput state).target r.targetLocation).shows q = true →
      ((observed.planInput state).target r.targetLocation).shows r = true → q = r) :
    ∃ (keys : List RecordKey) (status : RecordKey → MemberStatus), keys.Nodup ∧
      (∀ k, k ∈ keys ↔ ReportedKey observed state k) ∧
      ((memberStatuses observed (plan (observed.planInput state)) state known).filter
        fun s => s.state ≠ .rejected).Perm (keys.map status) ∧
      ∀ k ∈ keys, (status k).For k ∧
        (∀ k' ∈ keys, (status k').For k → k.group.Valid → k'.group.Valid → k' = k) ∧
        ((status k).state = .mounted ↔
          ∃ d ∈ observed.desired, d.key = k ∧ ∃ r, Healthy (observed.planInput state) d r) := by
  have hstatus : ∀ k ∈ (statusMap observed (plan (observed.planInput state)) state known).keys,
      ((statusMap observed (plan (observed.planInput state)) state known).status k).For k ∧
      ((statusMap observed (plan (observed.planInput state)) state known).status k).state ≠ .rejected ∧
      (((statusMap observed (plan (observed.planInput state)) state known).status k).state = .mounted ↔
        k ∉ markedKeys (observed.planInput state)) := by
    intro k hk
    obtain ⟨s,hs,h⟩ := statusMap_get known ((mem_statusMap known).mp hk)
    rw [StatusMap.status,hs]
    exact h
  refine ⟨_,_,Std.ExtTreeMap.nodup_keys,fun k => mem_statusMap known,
    memberStatuses_perm known _ fun k hk => (hstatus k hk).2.1,fun k hk => ?_⟩
  obtain ⟨hfor,-,hmounted⟩ := hstatus k hk
  refine ⟨hfor,fun k' hk' hfor' hv hv' => (hstatus k' hk').1.key_eq hfor' hv' hv,?_⟩
  rw [hmounted]
  have hiff : ∀ d ∈ observed.desired, (d.key ∈ markedKeys (observed.planInput state) ↔
      ¬∃ r, Healthy (observed.planInput state) d r) :=
    fun d hd => marked_iff_not_healthy hkeys hd (hfrozen d hd) hone
  constructor
  · intro hno
    have hd : ∃ d ∈ observed.desired, d.key = k := by
      rcases (mem_statusMap known).mp hk with hd | ⟨r,hr,rfl⟩
      · exact hd
      · by_contra hd
        exact hno (marked_of_recorded hr fun h => hd (List.mem_map.mp h))
    obtain ⟨d,hd,rfl⟩ := hd
    exact ⟨d,hd,rfl,not_not.mp (mt (hiff d hd).mpr hno)⟩
  · rintro ⟨d,hd,rfl,hh⟩ hmarked
    exact (hiff d hd).mp hmarked hh

/-! A healthy member, one that collides with it, and one whose record is stale. -/
namespace SampleReport

open Sample

theorem valid_c : ValidName "c".toList := by decide

def c : Name := ⟨"c".toList,valid_c⟩

def observed : Observed where
  desired := [desired group a "x",desired group b "x"]
  observations := observations [(⟨group,b⟩,.resolved (dir 10)),(⟨group,a⟩,.resolved (dir 20))]
    [(view "x",.mounted (identity 1 10) none),(view "y",.notMounted)]
  frozen := ∅
  members := ∅
  scannedSets := ∅
  ignored := ∅
  notes := []

def recorded : State := state [record group b "x" 1 10,record group c "y" 2 30]

theorem memberStatuses_truthful_run :
    ∃ (keys : List RecordKey) (status : RecordKey → MemberStatus), keys.Nodup ∧
      (∀ k, k ∈ keys ↔ ReportedKey observed recorded k) ∧
      ((memberStatuses observed (plan (observed.planInput recorded)) recorded true).filter
        fun s => s.state ≠ .rejected).Perm (keys.map status) ∧
      ∀ k ∈ keys, (status k).For k ∧
        (∀ k' ∈ keys, (status k').For k → k.group.Valid → k'.group.Valid → k' = k) ∧
        ((status k).state = .mounted ↔
          ∃ d ∈ observed.desired, d.key = k ∧ ∃ r, Healthy (observed.planInput recorded) d r) :=
  memberStatuses_truthful observed recorded true (by decide) (by decide) (by decide +kernel)

end SampleReport
end Byssus
