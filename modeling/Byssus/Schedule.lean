import Byssus.Library.Selection
import Byssus.Postcondition

/-! Every plan is a schedule that can be executed in order, and each of its mounts is one that
the input allows.
The builder's steps are moved by `finish`, and their dependencies with them. -/
namespace Byssus

open Std

/-- The record a step removes. -/
def Action.removed : Action → Option MountRecord
  | .unmount r _ => some r
  | .dropRecord r _ => some r
  | .mount _ => none

theorem Action.removed_eq_some {a : Action} {r : MountRecord} :
    a.removed = some r ↔ a.Removes r := by
  cases a <;> simp [Action.removed,Action.Removes]

/-- Each step comes after what it depends on, removals come first and depend on nothing, and no
record is removed twice and no member or target mounted twice. -/
structure Plan.Valid (p : Plan) : Prop where
  earlier : ∀ {i : ℕ} {s : Step}, p.steps[i]? = some s → ∀ j ∈ s.dependsOn, j < i
  increasing : ∀ s ∈ p.steps, s.dependsOn.SortedLT
  removalsFirst : ∀ {i j : ℕ} {s : Step} {r : MountRecord} {d : DesiredMount} {deps : List ℕ},
    p.steps[i]? = some s → s.action.Removes r → p.steps[j]? = some ⟨.mount d,deps⟩ → i < j
  removedOnce : ∀ {i j : ℕ} {s t : Step} {q r : MountRecord}, p.steps[i]? = some s →
    p.steps[j]? = some t → s.action.Removes q → t.action.Removes r → q.key = r.key → i = j
  mountedOnce : ∀ {i j : ℕ} {d e : DesiredMount} {deps deps' : List ℕ},
    p.steps[i]? = some ⟨.mount d,deps⟩ → p.steps[j]? = some ⟨.mount e,deps'⟩ →
    d.key = e.key ∨ d.target = e.target → i = j
  leaf : ∀ s ∈ p.steps, ∀ r, s.action.Removes r → s.dependsOn = []

/-- The plan has exactly the builder's steps, at the positions that `position` gives, with the
dependencies moved alike. -/
structure Plan.Places (p : Plan) (steps : List (Action × List ℕ)) (position : ℕ → ℕ) : Prop where
  injective : ∀ id < steps.length, ∀ id' < steps.length, position id = position id' → id = id'
  onto : ∀ i < p.steps.length, ∃ id < steps.length, position id = i
  step : ∀ {id : ℕ} {a : Action} {ids : List ℕ}, steps[id]? = some (a,ids) →
    ∃ deps, p.steps[position id]? = some ⟨a,deps⟩ ∧ ∀ j, j ∈ deps ↔ ∃ i ∈ ids, position i = j

section
variable {input : PlanInput}

/-- `finish` puts each step of the builder at its place in the order. -/
theorem finish_places (b : Builder) : b.finish.Places b.steps (phaseOrder b.steps).idxOf where
  injective := by
    intro id hid id' _ h
    exact (List.idxOf_inj (mem_phaseOrder.mpr hid)).mp h
  onto := by
    intro i hi
    obtain ⟨s,hs⟩ : ∃ s, b.finish.steps[i]? = some s := ⟨_,List.getElem?_eq_getElem hi⟩
    rw [finish_get] at hs
    obtain ⟨id,hid,-⟩ := Option.bind_eq_some_iff.mp hs
    obtain ⟨hlt,rfl⟩ := List.getElem?_eq_some_iff.mp hid
    refine ⟨_,mem_phaseOrder.mp (List.getElem_mem hlt),?_⟩
    exact ((phaseOrder_perm b.steps).nodup_iff.mpr List.nodup_range).idxOf_getElem i hlt
  step := by
    intro id a ids h
    have hid : id ∈ phaseOrder b.steps := mem_phaseOrder.mpr (List.getElem?_eq_some_iff.mp h).1
    refine ⟨((ids.map (phaseOrder b.steps).idxOf).insertionSort (· ≤ ·)).dedup,?_,?_⟩
    · rw [finish_get,List.getElem?_idxOf hid]
      simp [h]
    · intro j
      rw [Selection.mem_ascending,List.mem_map]

theorem plan_places (input : PlanInput) :
    (plan input).Places (planBuilder input).steps (phaseOrder (planBuilder input).steps).idxOf :=
  finish_places (planBuilder input)

/-- Where a step of the plan comes from. -/
theorem plan_step_origin {i : ℕ} {a : Action} {deps : List ℕ}
    (h : (plan input).steps[i]? = some ⟨a,deps⟩) : ∃ id ids,
      (planBuilder input).steps[id]? = some (a,ids) ∧
      (phaseOrder (planBuilder input).steps).idxOf id = i ∧
      StepJustified input (planBuilder input).steps (a,ids) ∧
      ∀ j, j ∈ deps ↔ ∃ k ∈ ids, (phaseOrder (planBuilder input).steps).idxOf k = j := by
  have hplaces := plan_places input
  obtain ⟨id,hid,hpos⟩ := hplaces.onto i (List.getElem?_eq_some_iff.mp h).1
  obtain ⟨⟨a',ids⟩,hget⟩ : ∃ s, (planBuilder input).steps[id]? = some s :=
    ⟨_,List.getElem?_eq_getElem hid⟩
  obtain ⟨deps',hstep,hdeps⟩ := hplaces.step hget
  rw [hpos,h] at hstep
  cases hstep
  exact ⟨id,ids,hget,hpos,(planBuilder_spec input).2.2 _ (List.mem_of_getElem? hget),hdeps⟩

/-- A planned step is justified, and the removals it waits for are planned. -/
theorem plan_step_justified {i : ℕ} {a : Action} {deps : List ℕ}
    (h : (plan input).steps[i]? = some ⟨a,deps⟩) : ∃ ids,
      StepJustified input (planBuilder input).steps (a,ids) ∧
      ∀ k ∈ ids, ∀ b, (planBuilder input).steps[k]? = some (b,[]) →
        ∃ j ∈ deps, (plan input).steps[j]? = some ⟨b,[]⟩ := by
  obtain ⟨id,ids,-,-,hok,hdeps⟩ := plan_step_origin h
  refine ⟨ids,hok,fun k hk b hb => ?_⟩
  obtain ⟨js,hstep,hjs⟩ := (plan_places input).step hb
  have hnil : js = [] := List.eq_nil_iff_forall_not_mem.mpr fun j hj => by
    obtain ⟨i,hi,-⟩ := (hjs j).mp hj
    cases hi
  rw [hnil] at hstep
  exact ⟨_,(hdeps _).mpr ⟨k,hk,rfl⟩,hstep⟩

/-- A dependency of a planned step is a removal. -/
theorem plan_dependency {i j : ℕ} {s : Step} (h : (plan input).steps[i]? = some s)
    (hj : j ∈ s.dependsOn) : ∃ t r, (plan input).steps[j]? = some t ∧ t.action.Removes r := by
  obtain ⟨a,deps⟩ := s
  obtain ⟨id,ids,-,-,hok,hdeps⟩ := plan_step_origin h
  obtain ⟨k,hk,rfl⟩ := (hdeps j).mp hj
  obtain ⟨b,hb,hphase⟩ := hok.removals k hk
  obtain ⟨js,hstep,-⟩ := (plan_places input).step hb
  rcases b.removes_or_mounts with ⟨r,hr⟩ | ⟨d,rfl⟩
  · exact ⟨_,r,hstep,hr⟩
  · cases hphase

/-- A removal depends on nothing. -/
theorem plan_leaf {i : ℕ} {s : Step} {r : MountRecord} (h : (plan input).steps[i]? = some s)
    (hr : s.action.Removes r) : s.dependsOn = [] := by
  obtain ⟨a,deps⟩ := s
  obtain ⟨id,ids,-,-,hok,hdeps⟩ := plan_step_origin h
  have hids : ids = [] := hok.leaf hr.phase_eq
  apply List.eq_nil_iff_forall_not_mem.mpr
  intro j hj
  obtain ⟨k,hk,-⟩ := (hdeps j).mp hj
  rw [hids] at hk
  cases hk

/-! ### Removals -/

theorem departAction_removed {r q : MountRecord} {a : Action} (h : departAction input r = some a)
    (ha : a.removed = some q) : q = r := by
  have hr := Action.removed_eq_some.mpr (departAction_removes h)
  rw [ha] at hr
  exact Option.some.inj hr

/-- The departing records that are removed are among the records, each once. -/
theorem departures_removed (input : PlanInput) :
    ((input.state.records.filterMap (departAction input)).filterMap Action.removed).Sublist
      input.state.records := by
  rw [List.filterMap_filterMap]
  have hsub : (input.state.records.filterMap fun r => (departAction input r).bind Action.removed) =
      input.state.records.filter fun r => (departAction input r).isSome := by
    rw [← List.filterMap_eq_filter]
    apply List.filterMap_congr
    intro r _
    cases h : departAction input r with
    | none => simp [h,Option.guard]
    | some a => simp [h,Option.guard,Action.removed_eq_some.mpr (departAction_removes h)]
  rw [hsub]
  exact List.filter_sublist

theorem memberActions_removed (input : PlanInput) (d : DesiredMount) :
    ((memberActions input d).filterMap Action.removed).Sublist (recordHere input d).toList := by
  unfold memberActions
  cases hr : recordHere input d with
  | none =>
    simp only [unrecordedActions]
    split_ifs <;> simp [Action.removed]
  | some r =>
    simp only [recordedActions]
    split
    · split_ifs
      · split
        · split_ifs
          · split <;> simp [Action.removed]
          · simp [Action.removed]
        · simp [Action.removed]
      · simp
    · split <;> simp [Action.removed]
    · simp

theorem members_removed (entries : List (RecordKey × DesiredMount)) :
    ((entries.flatMap fun e => memberActions input e.2).filterMap Action.removed).Sublist
      (entries.filterMap fun e => recordHere input e.2) := by
  induction entries with
  | nil => simp
  | cons e entries ih =>
    rw [List.flatMap_cons,List.filterMap_append,List.filterMap_cons]
    have h := (memberActions_removed input e.2).append ih
    cases hr : recordHere input e.2 <;> simpa [hr] using h

/-- The records removed by the steps of a plan have different keys. -/
theorem plan_removed_pairwise (input : PlanInput) :
    (((plan input).steps.map Step.action).filterMap Action.removed).Pairwise
      fun q r => q.key ≠ r.key := by
  have hrecords : input.state.records.Pairwise fun q r => q.key ≠ r.key :=
    List.pairwise_map.mp input.state.records_keys_nodup
  have hmembers : ((accepted input).toList.filterMap fun e => recordHere input e.2).Pairwise
      fun q r => q.key ≠ r.key := by
    rw [List.pairwise_filterMap]
    refine (accepted input).distinct_keys_toList.imp_of_mem ?_
    intro x y hx hy hne q hq r hr hk
    apply hne
    rw [LawfulEqCmp.compare_eq_iff_eq,(mem_accepted.mp hx).1,(mem_accepted.mp hy).1,
      ← State.key_of_get (recordHere_iff.mp hq).1,← State.key_of_get (recordHere_iff.mp hr).1,hk]
  have hplanned : ((plannedActions input).filterMap Action.removed).Pairwise
      fun q r => q.key ≠ r.key := by
    unfold plannedActions
    rw [List.filterMap_append,List.pairwise_append]
    refine ⟨hrecords.sublist (departures_removed input),hmembers.sublist (members_removed _),?_⟩
    intro q hq r hr hk
    -- a departing record is not at an accepted member's desired location
    obtain ⟨a,ha,haq⟩ := List.mem_filterMap.mp hq
    obtain ⟨q',hq',hdep⟩ := List.mem_filterMap.mp ha
    have hqq := departAction_removed hdep haq
    subst hqq
    obtain ⟨e,he,hre⟩ := List.mem_filterMap.mp ((members_removed _).subset hr)
    have hget := (recordHere_iff.mp hre).1
    have hrmem := State.mem_records_of_get hget
    have heq : q = r := State.eq_of_key_eq hq' hrmem hk
    subst heq
    have hnot := not_departs_of_recordHere (mem_accepted.mp he).2 hre
    rw [departAction_departs hdep] at hnot
    cases hnot
  rw [plan_actions,List.filterMap_append]
  have h0 : ((plannedActions input).filter fun a => a.phase ≠ 0).filterMap Action.removed = [] := by
    rw [List.filterMap_eq_nil_iff]
    intro a ha
    have hp := (List.mem_filter.mp ha).2
    cases a <;> simp_all [Action.phase,Action.removed]
  rw [h0,List.append_nil]
  exact hplanned.sublist (List.Sublist.filterMap _ List.filter_sublist)

/-! ### Schedules -/

theorem plan_valid (input : PlanInput) : (plan input).Valid where
  earlier := by
    rintro i ⟨a,deps⟩ h j hj
    obtain ⟨t,r,ht,hr⟩ := plan_dependency h hj
    rcases a.removes_or_mounts with ⟨q,hq⟩ | ⟨d,rfl⟩
    · rw [plan_leaf h hq] at hj
      cases hj
    · exact plan_removals_first ht hr h
  increasing := by
    intro s hs
    obtain ⟨i,hi⟩ := List.mem_iff_getElem?.mp hs
    unfold plan at hi
    rw [finish_get] at hi
    obtain ⟨id,-,hid⟩ := Option.bind_eq_some_iff.mp hi
    obtain ⟨t,-,rfl⟩ := Option.map_eq_some_iff.mp hid
    exact Selection.sortedLT_ascending _
  removalsFirst := plan_removals_first
  removedOnce := by
    intro i j s t q r hi hj hq hr hk
    apply Lists.index_unique (plan_removed_pairwise input) (getElem?_action hi)
      (getElem?_action hj) (Action.removed_eq_some.mpr hq) (Action.removed_eq_some.mpr hr)
    exact ⟨fun hne => hne hk,fun hne => hne hk.symm⟩
  mountedOnce := plan_mount_index_unique
  leaf := by
    intro s hs r hr
    obtain ⟨i,hi⟩ := List.mem_iff_getElem?.mp hs
    exact plan_leaf hi hr

/-- Every plan is a schedule, and holds the builder's steps with their dependencies. -/
theorem plan_is_schedule (input : PlanInput) : (plan input).Valid ∧
    ∃ position, (plan input).Places (planBuilder input).steps position :=
  ⟨plan_valid input,_,plan_places input⟩

/-- A planned mount is for an accepted member of a group that is not frozen, whose source was
resolved.  Nothing is mounted at its target, or it waits for the unmount of what is; and it
waits for the removal of the member's record, unless that is at the desired location and its
mount is gone. -/
theorem plan_mount_allowed {i : ℕ} {d : DesiredMount} {deps : List ℕ}
    (h : (plan input).steps[i]? = some ⟨.mount d,deps⟩) :
    d ∈ input.desired ∧ d.key.group ∉ input.frozenGroups ∧ (accepted input)[d.key]? = some d ∧
      (∃ root, input.source d.key = .resolved root) ∧
      (input.target d.target = .notMounted ∨ ∃ j ∈ deps, ∃ r reason identity attrs,
        (plan input).steps[j]? = some ⟨.unmount r reason,[]⟩ ∧ r.targetLocation = d.target ∧
          input.target d.target = .mounted identity attrs ∧
          identity.matches r.identity = true) ∧
      ∀ r, input.state.get d.key = some r →
        (∃ j ∈ deps, ∃ a, (plan input).steps[j]? = some ⟨a,[]⟩ ∧ a.Removes r) ∨
          (r.sourceLocation = d.source ∧ r.targetLocation = d.target ∧
            input.target d.target = .notMounted) := by
  have hmem : Action.mount d ∈ plannedActions input :=
    mem_plan_actions.mp (List.mem_map_of_mem (List.mem_of_getElem? h))
  obtain ⟨hacc,hsource,-⟩ := mount_mem_iff.mp hmem
  obtain ⟨ids,hok,hmoved⟩ := plan_step_justified h
  refine ⟨hacc.mem,hacc.notFrozen,(accepted_get input d.key d).mpr ⟨rfl,hacc⟩,hsource,?_,?_⟩
  · rcases hok.cleared d rfl with hn | ⟨k,hk,r,reason,identity,attrs,hs,hh⟩
    · exact .inl hn
    · obtain ⟨j,hj,hstep⟩ := hmoved k hk _ hs
      exact .inr ⟨j,hj,r,reason,identity,attrs,hstep,hh⟩
  · intro r hr
    rcases hok.waits d rfl r hr with ⟨k,hk,a,hs,ha⟩ | hh
    · obtain ⟨j,hj,hstep⟩ := hmoved k hk _ hs
      exact .inl ⟨j,hj,a,hstep,ha⟩
    · exact .inr hh

end

/-! Two members that exchange their targets. -/
namespace SampleSwap

open Sample

def input : PlanInput where
  desired := [desired group a "y",desired group b "x"]
  state := state [record group a "x" 1 10,record group b "y" 2 20]
  frozenGroups := ∅
  observations := observations [(⟨group,a⟩,.resolved (dir 10)),(⟨group,b⟩,.resolved (dir 20))]
    [(view "x",.mounted (identity 1 10) none),(view "y",.mounted (identity 2 20) none)]

theorem step_eq : (plan input).steps[2]? = some ⟨.mount (desired group a "y"),[0,1]⟩ := by
  decide +kernel

theorem plan_mount_allowed_run : (∃ j ∈ [0,1], ∃ r reason identity attrs,
      (plan input).steps[j]? = some ⟨.unmount r reason,[]⟩ ∧ r.targetLocation = view "y" ∧
        input.target (view "y") = .mounted identity attrs ∧ identity.matches r.identity = true) := by
  obtain ⟨-,-,-,-,hcleared,-⟩ := plan_mount_allowed step_eq
  have hmounted : input.target (view "y") ≠ .notMounted := by decide +kernel
  exact hcleared.resolve_left hmounted

end SampleSwap
end Byssus
