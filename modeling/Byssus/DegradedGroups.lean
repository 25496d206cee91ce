import Byssus.Daemon
import Byssus.ObserveSpec
import Byssus.Outcomes
import Byssus.PlanFrozen

/-! What is degraded stays untouched until a reload succeeds.
A plan has no step for a group that is degraded, or in a set that is, and execution changes
only the records that steps are about. -/
namespace Byssus

open Program

variable {D H K : Type}

/-! ### Execution -/

section
variable [DecidableEq D]

/-- A step leaves the records of other members. -/
theorem runAction_frame {env : StepEnv D} {unique : Bool} {a : Action} {k : RecordKey}
    {w v : World D} {r : Except String Unit} (hk : a.key ≠ k)
    (h : (runAction env unique a).run w = (r,v)) : v.state.get k = w.state.get k := by
  have hJ : Drifts (fun _ _ => True) env := ⟨fun _ => trivial,fun _ _ => trivial,fun _ _ => trivial⟩
  cases a with
  | mount d =>
    cases tryMount_run hJ h with
    | notAttached e t ht => rfl
    | unread e e' t ht hf => rfl
    | recorded t ht =>
      rw [State.get_insert,record_key,if_neg]
      exact hk
    | stuck e e' t ht disk hd hf => rfl
    | rolledBack e t ht disk hd r v hu => cases hu <;> rfl
  | unmount record reason =>
    cases tryUnmount_run hJ h with
    | notUnmounted e t ht => rfl
    | unmounted r m t t' disk ht hm hv ht' hd =>
      rw [State.get_remove,if_neg]
      exact hk
  | dropRecord record reason =>
    obtain ⟨t,disk,-,-,rfl⟩ := dropRecord_run hJ h
    rw [State.get_remove,if_neg]
    exact hk

/-- An execution leaves the records that no step is about. -/
theorem execute_frame {env : ℕ → StepEnv D} {unique : Bool} {plan : Plan} {w : World D}
    {k : RecordKey} (hk : ∀ step ∈ plan.steps, step.action.key ≠ k) :
    (execute env unique plan w).2.state.get k = w.state.get k := by
  apply execute_induction (P := fun _ _ v => v.state.get k = w.state.get k) rfl
  · exact fun _ _ _ _ _ _ h => h
  · intro i step results v r v' hstep _ hv _ hrun
    rw [runAction_frame (hk step (List.mem_of_getElem? hstep)) hrun,hv]

end

/-! ### Planning -/

/-- The group is degraded, or its set is. -/
def Degraded.Covers (degraded : Degraded) (id : GroupId) : Prop :=
  id ∈ degraded.groups ∨ ∃ s ∈ degraded.sets, id.set = some s

/-- A discovered group is in a set that was scanned. -/
theorem ScanEnv.Discovered.set {env : ScanEnv H} {runtime : Runtime H} {skip : Finset Name}
    {g : GroupRuntime H} (h : env.Discovered runtime skip g) :
    ∃ s, s ∉ skip ∧ g.config.name.set = some s := by
  obtain ⟨s,set,hset,hskip,-,hfound⟩ := h
  obtain ⟨path,-,-,hname⟩ := hfound.name
  exact ⟨s,hskip,by rw [hname,GroupId.inSet_set,runtime.sets_keyed s set hset]⟩

/-- No pass plans a step for a group that is covered. -/
theorem plan_not_covered {env : PassEnv H} {runtime : Runtime H} {state : State}
    {degraded : Degraded} {a : Action}
    (ha : a ∈ (plan (passInput env runtime state degraded)).steps.map Step.action) :
    ¬degraded.Covers a.key.group := by
  have hfrozen : ¬env.Frozen runtime state degraded a.key.group :=
    fun h => plan_notFrozen ha (mem_frozenGroups.mpr h)
  rintro (hg | ⟨s,hs,hset⟩)
  · exact hfrozen (.inl (.inl hg))
  · have hrecord : ∀ r ∈ state.records, r.group ≠ a.key.group := by
      intro r hr hgroup
      refine hfrozen (.inl (.inr (.inr ⟨r,hr,hgroup,.inl ⟨s,hset,.inl hs⟩⟩)))
    have hdesired : ∀ d, env.Wanted runtime state degraded d → d.key.group ≠ a.key.group := by
      rintro d ⟨-,g,-,hg,-⟩ hgroup
      rw [hgroup] at hg
      rcases hg with ⟨hnone,-⟩ | ⟨hfound,hname⟩
      · rw [hset] at hnone
        cases hnone
      · obtain ⟨s',hskip,hs'⟩ := hfound.set
        rw [hname,hset] at hs'
        cases hs'
        exact hskip hs
    rcases mem_plannedActions (mem_plan_actions.mp ha) with ⟨r,hr,hdr⟩ | ⟨d,hd,hda⟩
    · exact hrecord r hr (by rw [(departAction_removes hdr).key_eq]; rfl)
    · rcases mem_memberActions hda with rfl | ⟨r,hrec,hrem⟩
      · exact hdesired d (mem_desired.mp hd.mem) rfl
      · refine hrecord r (State.mem_records_of_get (recordHere_iff.mp hrec).1) ?_
        rw [hrem.key_eq]
        rfl

/-! ### Runs -/

/-- From `l` to `l'`, with what happened in between, covered groups are untouched. -/
structure Loop.Untouched (l l' : Loop H D) (since : List Happened) : Prop where
  groups : l.daemon.degraded.groups ⊆ l'.daemon.degraded.groups
  sets : l.daemon.degraded.sets ⊆ l'.daemon.degraded.sets
  noStep : ∀ id, l.daemon.degraded.Covers id → ∀ trigger start p,
    Happened.passed trigger start p ∈ since → ∀ step ∈ p.plan.steps, step.action.key.group ≠ id
  records : ∀ id, l.daemon.degraded.Covers id → ∀ name,
    l'.daemon.world.state.get ⟨id,name⟩ = l.daemon.world.state.get ⟨id,name⟩

/-- Unless a reload succeeded in between. -/
def Loop.Keeps (l l' : Loop H D) : Prop :=
  ∃ since, l'.history = l.history++since ∧
    (Happened.reloaded true ∉ since → l.Untouched l' since)

namespace Loop

theorem Untouched.covers {l l' : Loop H D} {since : List Happened} (h : l.Untouched l' since)
    {id : GroupId} (hid : l.daemon.degraded.Covers id) : l'.daemon.degraded.Covers id := by
  rcases hid with hg | ⟨s,hs,hset⟩
  · exact .inl (h.groups hg)
  · exact .inr ⟨s,h.sets hs,hset⟩

theorem Keeps.refl (l : Loop H D) : l.Keeps l :=
  ⟨[],by simp,fun _ => ⟨subset_rfl,subset_rfl,by simp,fun _ _ _ => rfl⟩⟩

theorem Keeps.trans {l m r : Loop H D} (h : l.Keeps m) (h' : m.Keeps r) : l.Keeps r := by
  obtain ⟨xs,hxs,hx⟩ := h
  obtain ⟨ys,hys,hy⟩ := h'
  refine ⟨xs++ys,by rw [hys,hxs,List.append_assoc],fun hno => ?_⟩
  rw [List.mem_append,not_or] at hno
  have hl := hx hno.1
  have hm := hy hno.2
  constructor
  · exact hl.groups.trans hm.groups
  · exact hl.sets.trans hm.sets
  · intro id hid trigger start p hp
    rcases List.mem_append.mp hp with hp | hp
    · exact hl.noStep id hid trigger start p hp
    · exact hm.noStep id (hl.covers hid) trigger start p hp
  · intro id hid name
    rw [hm.records id (hl.covers hid) name,hl.records id hid name]

end Loop

section
variable [DecidableEq D] {sys : InotifySys K}

/-- A pass keeps what is degraded. -/
theorem Daemon.pass_degraded (sys : InotifySys K) (a : PassAnswers H K D) (now : ℕ)
    (d : Daemon H D) : d.degraded.groups ⊆ (d.pass sys a now).1.degraded.groups ∧
      d.degraded.sets ⊆ (d.pass sys a now).1.degraded.sets := by
  constructor
  · intro g hg
    exact (mem_foldl_recordNote_groups _ _ g).mpr (.inl hg)
  · intro s hs
    exact (mem_foldl_recordNote_sets _ _ s).mpr (.inl hs)

theorem Loop.Small.keeps {l l' : Loop H D} (hs : Loop.Small sys Loop.anyPass l l') : l.Keeps l' := by
  cases hs with
  | wait elapsed ended =>
    exact ⟨[],by simp,fun _ => ⟨subset_rfl,subset_rfl,by simp,fun _ _ _ => rfl⟩⟩
  | reload a =>
    refine ⟨_,rfl,fun hno => ?_⟩
    rcases Daemon.reload_cases sys a l.daemon with ⟨e,hr⟩ | ⟨_,_,_,-,-,-,hr⟩
    · rw [hr]
      exact ⟨subset_rfl,subset_rfl,by simp,fun _ _ _ => rfl⟩
    · rw [hr] at hno
      simp at hno
  | drain hd =>
    refine ⟨_,rfl,fun _ => ?_⟩
    obtain ⟨watcher,-,rfl⟩ := Daemon.handleInotify_ok hd
    constructor
    · split_ifs <;> exact Finset.subset_union_left
    · split_ifs <;> exact Finset.subset_union_left
    · simp
    · intro id _ name
      split_ifs <;> rfl
  | pass trigger a _ =>
    refine ⟨_,rfl,fun _ => ?_⟩
    obtain ⟨hgroups,hsets⟩ := Daemon.pass_degraded sys a (l.clock+a.elapsed)
      {l.daemon with pending := none}
    have hplan : ∀ id, l.daemon.degraded.Covers id → ∀ step ∈ (plan (passInput a.env
        l.daemon.runtime l.daemon.world.state l.daemon.degraded)).steps,
        step.action.key.group ≠ id := by
      rintro id hid step hstep rfl
      exact plan_not_covered (List.mem_map_of_mem hstep) hid
    constructor
    · exact hgroups
    · exact hsets
    · intro id hid trigger' start p hp
      cases List.mem_singleton.mp hp
      exact hplan id hid
    · intro id hid name
      have hworld := (Daemon.pass_frame sys a (l.clock+a.elapsed)
        {l.daemon with pending := none}).2.2.2.2.2.1
      show (Daemon.pass sys a (l.clock+a.elapsed) _).1.world.state.get _ = _
      rw [hworld]
      apply execute_frame
      intro step hstep hkey
      exact hplan id hid step hstep (congrArg RecordKey.group hkey)


/-- In every run, from any moment on until a reload succeeds, what is degraded stays degraded,
no plan has a step for a member or record of it, and its records do not change. -/
theorem degraded_untouched (l : Loop H D) (actions : List (LoopAction H K D)) :
    l.Keeps (l.run sys actions) :=
  Loop.run_induction (Loop.Keeps.refl l) (fun _ _ h hs => h.trans hs.keeps) actions

end
end Byssus
