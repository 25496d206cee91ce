import Byssus.PlanSteps

/-! Which steps a plan holds: none for a frozen group, and a mount for exactly the
members that meet a condition on the input.  Freezing a group does not reserve the
targets of its records. -/
namespace Byssus

open Std

/-! ### Frozen groups -/

/-- The member a step is about. -/
def Action.key : Action → RecordKey
  | .unmount record _ => record.key
  | .dropRecord record _ => record.key
  | .mount desired => desired.key

/-- The location a step works on. -/
def Action.target : Action → Location
  | .unmount record _ => record.targetLocation
  | .dropRecord record _ => record.targetLocation
  | .mount desired => desired.target

theorem Action.Removes.target_eq {a : Action} {record : MountRecord} (h : a.Removes record) :
    a.target = record.targetLocation := by
  rcases h with ⟨_,rfl⟩ | ⟨_,rfl⟩ <;> rfl

theorem Action.removes_or_mounts (a : Action) :
    (∃ record, a.Removes record) ∨ ∃ d, a = .mount d := by
  cases a with
  | unmount record reason => exact .inl ⟨record,.inl ⟨reason,rfl⟩⟩
  | dropRecord record reason => exact .inl ⟨record,.inr ⟨reason,rfl⟩⟩
  | mount d => exact .inr ⟨d,rfl⟩

theorem Action.Removes.key_eq {a : Action} {r : MountRecord} (h : a.Removes r) :
    a.key = r.key := by
  rcases h with ⟨_,rfl⟩ | ⟨_,rfl⟩ <;> rfl

/-- The actions for a member are about it, and remove at most its own record. -/
theorem mem_memberActions {input : PlanInput} {d : DesiredMount} {a : Action}
    (h : a ∈ memberActions input d) :
    a = .mount d ∨ ∃ r, recordHere input d = some r ∧ a.Removes r := by
  unfold memberActions at h
  cases hr : recordHere input d with
  | some r =>
    rw [hr] at h
    simp only [recordedActions] at h
    have hu : ∀ reason, a = .unmount r reason → ∃ r', some r = some r' ∧ a.Removes r' :=
      fun reason ha => ⟨r,rfl,.inl ⟨reason,ha⟩⟩
    split at h
    · split_ifs at h with hi
      · split at h
        · split_ifs at h with hroot
          · split at h
            · rcases List.mem_pair.mp h with ha | ha
              · exact .inr (hu _ ha)
              · exact .inl ha
            · cases h
          · rcases List.mem_pair.mp h with ha | ha
            · exact .inr (hu _ ha)
            · exact .inl ha
        · exact .inr (hu _ (List.mem_singleton.mp h))
      · cases h
    · split at h
      · exact .inl (List.mem_singleton.mp h)
      · exact .inr ⟨r,rfl,.inr ⟨_,List.mem_singleton.mp h⟩⟩
    · cases h
  | none =>
    rw [hr] at h
    simp only [unrecordedActions] at h
    split_ifs at h
    · exact .inl (List.mem_singleton.mp h)
    · cases h

/-- Where a planned step comes from: a departing record or an accepted member. -/
theorem mem_plannedActions {input : PlanInput} {a : Action} (h : a ∈ plannedActions input) :
    (∃ r ∈ input.state.records, departAction input r = some a) ∨
      ∃ d, Accepts input d ∧ a ∈ memberActions input d := by
  unfold plannedActions at h
  rcases List.mem_append.mp h with h | h
  · exact .inl (List.mem_filterMap.mp h)
  · obtain ⟨e,he,ha⟩ := List.mem_flatMap.mp h
    exact .inr ⟨e.2,(mem_accepted.mp he).2,ha⟩

/-- No step is planned for a frozen group. -/
theorem plan_notFrozen {input : PlanInput} {a : Action}
    (h : a ∈ (plan input).steps.map Step.action) : a.key.group ∉ input.frozenGroups := by
  rcases mem_plannedActions (mem_plan_actions.mp h) with ⟨r,-,hr⟩ | ⟨d,hd,ha⟩
  · rw [(departAction_removes hr).key_eq]
    exact (departs_iff.mp (departAction_departs hr)).1
  · rcases mem_memberActions ha with rfl | ⟨r,hr,hrem⟩
    · exact hd.notFrozen
    · rw [hrem.key_eq,State.key_of_get (recordHere_iff.mp hr).1]
      exact hd.notFrozen

/-- A planned removal is one of a record in the state. -/
theorem plan_removes_record {input : PlanInput} {a : Action} {r : MountRecord}
    (h : a ∈ (plan input).steps.map Step.action) (hr : a.Removes r) :
    r ∈ input.state.records := by
  have hinj : ∀ r', a.Removes r' → r = r' := by
    intro r' hr'
    rcases hr with ⟨_,rfl⟩ | ⟨_,rfl⟩ <;> rcases hr' with ⟨_,h⟩ | ⟨_,h⟩ <;> cases h <;> rfl
  rcases mem_plannedActions (mem_plan_actions.mp h) with ⟨r',hmem,hr'⟩ | ⟨d,hd,ha⟩
  · rw [hinj r' (departAction_removes hr')]
    exact hmem
  · rcases mem_memberActions ha with rfl | ⟨r',hr',hrem⟩
    · rcases hr with ⟨_,h⟩ | ⟨_,h⟩ <;> cases h
    · rw [hinj r' hrem]
      exact State.mem_records_of_get (recordHere_iff.mp hr').1

/-! ### The order of the steps -/

/-- The member a step mounts. -/
def Action.mounts : Action → Option DesiredMount
  | .mount d => some d
  | _ => none

@[simp] theorem mounts_mount (d : DesiredMount) : (Action.mount d).mounts = some d := rfl
@[simp] theorem mounts_unmount (r : MountRecord) (reason : UnmountReason) :
    (Action.unmount r reason).mounts = none := rfl
@[simp] theorem mounts_dropRecord (r : MountRecord) (reason : DropReason) :
    (Action.dropRecord r reason).mounts = none := rfl
@[simp] theorem filterMap_mounts_remount (r : MountRecord) (reason : UnmountReason)
    (d : DesiredMount) : [Action.unmount r reason,.mount d].filterMap Action.mounts = [d] := rfl

theorem memberActions_mounts (input : PlanInput) (d : DesiredMount) :
    ((memberActions input d).filterMap Action.mounts).Sublist [d] := by
  unfold memberActions
  split
  · unfold recordedActions
    split
    · split_ifs
      · split
        · split_ifs
          · split <;> simp
          · simp
        · simp
      · simp
    · split <;> simp
    · simp
  · unfold unrecordedActions
    split_ifs <;> simp

theorem plannedActions_mounts (input : PlanInput) :
    ((plannedActions input).filterMap Action.mounts).Sublist
      ((accepted input).toList.map Prod.snd) := by
  unfold plannedActions
  rw [List.filterMap_append]
  have hrem : (input.state.records.filterMap (departAction input)).filterMap Action.mounts = [] := by
    rw [List.filterMap_eq_nil_iff]
    intro a ha
    obtain ⟨r,-,hr⟩ := List.mem_filterMap.mp ha
    rcases departAction_removes hr with ⟨_,rfl⟩ | ⟨_,rfl⟩ <;> rfl
  rw [hrem,List.nil_append]
  induction (accepted input).toList with
  | nil => simp
  | cons e es ih =>
    rw [List.flatMap_cons,List.filterMap_append,List.map_cons]
    exact (memberActions_mounts input e.2).append ih

/-- No two mounts of a plan share a member or a target. -/
theorem plan_mounts_pairwise (input : PlanInput) :
    (((plan input).steps.map Step.action).filterMap Action.mounts).Pairwise
      fun d e => d.key ≠ e.key ∧ d.target ≠ e.target := by
  have hacc : ((accepted input).toList.map Prod.snd).Pairwise
      fun d e => d.key ≠ e.key ∧ d.target ≠ e.target := by
    rw [List.pairwise_map]
    refine (accepted input).distinct_keys_toList.imp_of_mem ?_
    intro x y hx hy hne
    obtain ⟨hxk,hxa⟩ := mem_accepted.mp hx
    obtain ⟨hyk,hya⟩ := mem_accepted.mp hy
    have hkey : x.2.key ≠ y.2.key := by
      intro hk
      apply hne
      rw [LawfulEqCmp.compare_eq_iff_eq,hxk,hyk,hk]
    refine ⟨hkey,?_⟩
    intro ht
    have h₁ := hxa.1
    rw [ht,hya.1] at h₁
    exact hkey (by rw [Option.some.inj h₁])
  rw [plan_actions,List.filterMap_append]
  have h0 : ((plannedActions input).filter fun a => a.phase = 0).filterMap Action.mounts = [] := by
    rw [List.filterMap_eq_nil_iff]
    intro a ha
    have hp := (List.mem_filter.mp ha).2
    cases a <;> simp_all [Action.phase,Action.mounts]
  rw [h0,List.nil_append]
  apply List.Pairwise.sublist _ hacc
  exact (List.Sublist.filterMap _ List.filter_sublist).trans (plannedActions_mounts input)

theorem getElem?_action {steps : List Step} {i : ℕ} {step : Step} (h : steps[i]? = some step) :
    (steps.map Step.action)[i]? = some step.action := by
  simp [h]

theorem plan_mount_index_unique {input : PlanInput} {i j : ℕ} {d e : DesiredMount}
    {deps deps' : List ℕ} (hi : (plan input).steps[i]? = some ⟨.mount d,deps⟩)
    (hj : (plan input).steps[j]? = some ⟨.mount e,deps'⟩)
    (h : d.key = e.key ∨ d.target = e.target) : i = j := by
  apply Lists.index_unique (plan_mounts_pairwise input) (getElem?_action hi) (getElem?_action hj)
    (mounts_mount d) (mounts_mount e)
  constructor
  · rintro ⟨hk,ht⟩
    exact h.elim hk ht
  · rintro ⟨hk,ht⟩
    exact h.elim (fun h => hk h.symm) fun h => ht h.symm

/-- Removals come before mounts. -/
theorem plan_removals_first {input : PlanInput} {i j : ℕ} {step : Step} {d : DesiredMount}
    {deps : List ℕ} {r : MountRecord} (hi : (plan input).steps[i]? = some step)
    (hr : step.action.Removes r) (hj : (plan input).steps[j]? = some ⟨.mount d,deps⟩) : i < j := by
  have hp : (plan input).steps.map Step.action =
      (plannedActions input).filter (fun a => decide (a.phase = 0)) ++
        (plannedActions input).filter fun a => !decide (a.phase = 0) := by
    simpa using plan_actions input
  apply Lists.index_lt_of_filter_append hp (getElem?_action hi) (getElem?_action hj)
  · rcases hr with ⟨_,h⟩ | ⟨_,h⟩ <;> simp [h,Action.phase]
  · simp [Action.phase]

/-- A record is dropped only where the target was inspected and did not show its mount. -/
theorem plan_drop_unseen {input : PlanInput} {r : MountRecord} {reason : DropReason}
    (h : Action.dropRecord r reason ∈ (plan input).steps.map Step.action) :
    (input.target r.targetLocation).shows r = false ∧
      ∀ reason, input.target r.targetLocation ≠ .unavailable reason := by
  rcases mem_plannedActions (mem_plan_actions.mp h) with ⟨r',-,hr⟩ | ⟨d,-,ha⟩
  · have hdep := departAction_departs hr
    unfold departAction at hr
    rw [if_pos hdep] at hr
    split at hr
    · rename_i ht
      cases hr
      simp [ht,TargetState.shows]
    · rename_i identity attrs ht
      by_cases hi : identity.matches r'.identity = true
      · simp [hi] at hr
      · simp only [hi,Bool.false_eq_true,if_false,Option.some.injEq,Action.dropRecord.injEq] at hr
        rw [hr.1] at ht hi
        simpa [ht,TargetState.shows] using hi
    · cases hr
  · unfold memberActions at ha
    split at ha
    · rename_i r' hr'
      obtain ⟨-,-,htl⟩ := recordHere_iff.mp hr'
      unfold recordedActions at ha
      split at ha
      · split_ifs at ha
        · split at ha
          · split_ifs at ha
            · split at ha <;> simp at ha
            · simp at ha
          · simp at ha
        · cases ha
      · rename_i ht
        split at ha
        · simp at ha
        · simp only [List.mem_singleton,Action.dropRecord.injEq] at ha
          rw [ha.1,htl]
          simp [ht,TargetState.shows]
      · cases ha
    · unfold unrecordedActions at ha
      split_ifs at ha
      · simp at ha
      · cases ha

/-- An unmount of a departing record frees its target. -/
theorem departAction_unmount {input : PlanInput} {r r' : MountRecord} {reason : UnmountReason}
    (h : departAction input r = some (.unmount r' reason)) : r' = r ∧ frees input r = true := by
  have hd := departAction_departs h
  have hr : r' = r := by
    rcases departAction_removes h with ⟨_,he⟩ | ⟨_,he⟩ <;> cases he
    rfl
  refine ⟨hr,?_⟩
  unfold departAction at h
  rw [if_pos hd] at h
  cases ht : input.target r.targetLocation with
  | notMounted => simp [ht] at h
  | unavailable reason => simp [ht] at h
  | mounted identity attrs =>
    by_cases hi : identity.matches r.identity = true
    · simp [frees,hd,ht,TargetState.shows,hi]
    · simp [ht,hi] at h

/-- A mount is unmounted only where it was seen. -/
theorem plan_unmount_seen {input : PlanInput} {r : MountRecord} {reason : UnmountReason}
    (h : Action.unmount r reason ∈ plannedActions input) :
    (input.target r.targetLocation).shows r = true := by
  rcases mem_plannedActions h with ⟨r',-,hr⟩ | ⟨d,-,ha⟩
  · obtain ⟨rfl,hf⟩ := departAction_unmount hr
    simp only [frees,Bool.and_eq_true] at hf
    exact hf.2
  · unfold memberActions at ha
    split at ha
    · rename_i r' hr'
      obtain ⟨-,-,htl⟩ := recordHere_iff.mp hr'
      unfold recordedActions at ha
      split at ha
      · rename_i identity attrs ht
        split_ifs at ha with hi
        · have hrr : r = r' := by
            split at ha
            · split_ifs at ha
              · split at ha <;> simp at ha
                exact ha.1
              · simp at ha
                exact ha.1
            · simp at ha
              exact ha.1
          subst hrr
          simpa [htl,ht,TargetState.shows] using hi
        · cases ha
      · split at ha <;> simp at ha
      · cases ha
    · unfold unrecordedActions at ha
      split_ifs at ha
      · simp at ha
      · cases ha

/-! ### When a member is mounted -/

/-- The record is not frozen and no accepted member is desired where it says. -/
def Leaves (input : PlanInput) (r : MountRecord) : Prop :=
  r.group ∉ input.frozenGroups ∧
    ∀ d ∈ input.desired, Accepts input d → d.key = r.key → recordMatchesDesired r d = false

instance (input : PlanInput) (r : MountRecord) : Decidable (Leaves input r) := by
  unfold Leaves; infer_instance

/-- The recorded mount stands at the target and has to be created again. -/
def Renews (input : PlanInput) (d : DesiredMount) (r : MountRecord) : Prop :=
  ∃ identity attrs root, input.target d.target = .mounted identity attrs ∧
    identity.matches r.identity = true ∧ input.source d.key = .resolved root ∧
    (root ≠ r.identity.root ∨ (attributeReason d r attrs).isSome)

/-- The condition on the input under which `d` is mounted: collision detection keeps
it, its source resolves, and either it is recorded here and its mount is gone or must be
renewed, or its old record (if any) can be removed and the target is empty or freed. -/
def Mountable (input : PlanInput) (d : DesiredMount) : Prop :=
  Accepts input d ∧ (∃ root, input.source d.key = .resolved root) ∧
    ((∃ r, input.state.get d.key = some r ∧ recordMatchesDesired r d = true ∧
        (input.target d.target = .notMounted ∨ Renews input d r)) ∨
      ((∀ r, input.state.get d.key = some r → recordMatchesDesired r d = false ∧
          ∀ reason, input.target r.targetLocation ≠ .unavailable reason) ∧
        (input.target d.target = .notMounted ∨
          ∃ q ∈ input.state.records, Leaves input q ∧ q.targetLocation = d.target ∧
            (input.target d.target).shows q = true)))

theorem departs_iff_leaves {input : PlanInput} {r : MountRecord} :
    departs input r = true ↔ Leaves input r := by
  rw [departs_iff]
  constructor
  · rintro ⟨hf,hd⟩
    exact ⟨hf,fun d _ ha hk => hd d ha hk⟩
  · rintro ⟨hf,hd⟩
    exact ⟨hf,fun d ha hk => hd d ha.mem ha hk⟩

theorem departAction_none_iff {input : PlanInput} {r : MountRecord} (hd : departs input r = true) :
    departAction input r = none ↔ ∃ reason, input.target r.targetLocation = .unavailable reason := by
  cases ht : input.target r.targetLocation with
  | notMounted => simp [departAction,hd,ht]
  | mounted identity attrs =>
    by_cases hi : identity.matches r.identity = true <;> simp [departAction,hd,ht,hi]
  | unavailable reason => simp [departAction,hd,ht]

theorem recordHere_none_iff {input : PlanInput} {d : DesiredMount} :
    recordHere input d = none ↔
      ∀ r, input.state.get d.key = some r → recordMatchesDesired r d = false := by
  simp [recordHere,Option.filter_eq_none_iff]

theorem vacated_iff {input : PlanInput} {t : Location} :
    vacated input t = true ↔ input.target t = .notMounted ∨
      ∃ q ∈ input.state.records, Leaves input q ∧ q.targetLocation = t ∧
        (input.target t).shows q = true := by
  have hany : (∃ q ∈ input.state.records, (frees input q && q.targetLocation = t) = true) ↔
      ∃ q ∈ input.state.records, Leaves input q ∧ q.targetLocation = t ∧
        (input.target t).shows q = true := by
    constructor
    · rintro ⟨q,hq,hh⟩
      simp only [frees,Bool.and_eq_true,decide_eq_true_eq] at hh
      obtain ⟨⟨hd,hs⟩,rfl⟩ := hh
      exact ⟨q,hq,departs_iff_leaves.mp hd,rfl,hs⟩
    · rintro ⟨q,hq,hl,rfl,hs⟩
      exact ⟨q,hq,by simp [frees,departs_iff_leaves.mpr hl,hs]⟩
  cases ht : input.target t with
  | notMounted => simp [vacated,ht]
  | mounted identity attrs =>
    rw [ht] at hany
    simp only [vacated,ht,List.any_eq_true,hany]
    simp
  | unavailable reason => simp [vacated,ht,TargetState.shows]

theorem blocked_iff {input : PlanInput} {d : DesiredMount} (hd : Accepts input d)
    (hn : recordHere input d = none) :
    blocked input d.key = true ↔ ∃ r, input.state.get d.key = some r ∧
      ∃ reason, input.target r.targetLocation = .unavailable reason := by
  cases hg : input.state.get d.key with
  | none => simp [blocked,hg]
  | some r =>
    have hdep : departs input r = true := departs_of_unrecorded hd hg hn
    simp [blocked,hg,hdep,departAction_none_iff hdep]

theorem mount_mem_recordedActions {input : PlanInput} {d : DesiredMount} {r : MountRecord} :
    Action.mount d ∈ recordedActions input d r ↔ (∃ root, input.source d.key = .resolved root) ∧
      (input.target d.target = .notMounted ∨ Renews input d r) := by
  unfold recordedActions Renews
  cases ht : input.target d.target with
  | notMounted => cases hs : input.source d.key <;> simp
  | mounted identity attrs =>
    cases hs : input.source d.key with
    | resolved root =>
      by_cases hi : identity.matches r.identity = true
      · by_cases hroot : root = r.identity.root
        · cases ha : attributeReason d r attrs <;> simp [hi,hroot,ha]
        · simp [hi,hroot]
      · simp [hi]
    | unavailable reason => by_cases hi : identity.matches r.identity = true <;> simp [hi]
  | unavailable reason => simp

theorem mount_mem_unrecordedActions {input : PlanInput} {d : DesiredMount} :
    Action.mount d ∈ unrecordedActions input d ↔ (∃ root, input.source d.key = .resolved root) ∧
      blocked input d.key = false ∧ vacated input d.target = true := by
  unfold unrecordedActions
  cases hs : input.source d.key <;> cases hb : blocked input d.key <;>
    cases hv : vacated input d.target <;> simp

/-- A plan mounts exactly the mountable members. -/
theorem plan_mount_iff (input : PlanInput) (d : DesiredMount) :
    Action.mount d ∈ (plan input).steps.map Step.action ↔ Mountable input d := by
  have hmem : Action.mount d ∈ plannedActions input ↔
      Accepts input d ∧ Action.mount d ∈ memberActions input d := by
    unfold plannedActions
    rw [List.mem_append,List.mem_filterMap,List.mem_flatMap]
    constructor
    · rintro (⟨r,-,hr⟩ | ⟨e,he,hm⟩)
      · rcases departAction_removes hr with ⟨_,h⟩ | ⟨_,h⟩ <;> cases h
      · rcases mem_memberActions hm with hde | ⟨_,-,⟨_,h⟩ | ⟨_,h⟩⟩
        · cases hde
          exact ⟨(mem_accepted.mp he).2,hm⟩
        · cases h
        · cases h
    · rintro ⟨ha,hm⟩
      exact .inr ⟨(d.key,d),mem_accepted.mpr ⟨rfl,ha⟩,hm⟩
  rw [mem_plan_actions,hmem]
  unfold Mountable
  apply and_congr_right
  intro ha
  unfold memberActions
  cases hr : recordHere input d with
  | some r =>
    obtain ⟨hg,hs,ht⟩ := recordHere_iff.mp hr
    have hm : recordMatchesDesired r d = true := (recordMatchesDesired_iff r d).mpr ⟨hs,ht⟩
    simp [mount_mem_recordedActions,hg,hm]
  | none =>
    have hn := recordHere_none_iff.mp hr
    have hb := blocked_iff ha hr
    simp only [mount_mem_unrecordedActions]
    apply and_congr_right
    intro _
    rw [vacated_iff,← Bool.not_eq_true,hb]
    constructor
    · rintro ⟨hb,hv⟩
      exact .inr ⟨fun r hr => ⟨hn r hr,fun reason hu => hb ⟨r,hr,reason,hu⟩⟩,hv⟩
    · rintro (⟨r,hg,hm,-⟩ | ⟨hh,hv⟩)
      · rw [hn r hg] at hm
        cases hm
      · exact ⟨fun ⟨r,hg,reason,hu⟩ => (hh r hg).2 reason hu,hv⟩

/-! ### Targets of frozen records -/

/-- A mount is planned at the target of a frozen record exactly when a mountable
member is desired there: freezing protects the record, not its target. -/
theorem mount_avoids_frozen_targets_iff (input : PlanInput) :
    (∀ d, Action.mount d ∈ (plan input).steps.map Step.action → ∀ r ∈ input.state.records,
        r.group ∈ input.frozenGroups → d.target ≠ r.targetLocation) ↔
      ∀ r ∈ input.state.records, r.group ∈ input.frozenGroups →
        ∀ d ∈ input.desired, d.target = r.targetLocation → ¬Mountable input d := by
  constructor
  · intro h r hr hf d _ ht hm
    exact h d ((plan_mount_iff input d).mpr hm) r hr hf ht
  · intro h d hd r hr hf ht
    have hm := (plan_mount_iff input d).mp hd
    exact h r hr hf d hm.1.mem ht hm

namespace FrozenTarget

open Sample

/-- The mount of a frozen record is gone, and another group's member is desired at
the recorded target. -/
def input : PlanInput where
  desired := [desired group a "x"]
  state := state [record frozenGroup a "x" 7 42]
  frozenGroups := {frozenGroup}
  observations := observations [(⟨group,a⟩,.resolved (dir 42))] [(view "x",.notMounted)]

theorem mount_at_frozen_target :
    ¬∀ input : PlanInput, ∀ d, Action.mount d ∈ (plan input).steps.map Step.action →
      ∀ r ∈ input.state.records, r.group ∈ input.frozenGroups → d.target ≠ r.targetLocation := by
  intro h
  exact h input (desired group a "x") (by decide +kernel) (record frozenGroup a "x" 7 42)
    (by decide +kernel) (by decide +kernel) rfl

end FrozenTarget
end Byssus
