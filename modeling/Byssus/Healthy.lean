import Byssus.Convergence

/-! Members whose mount is as it should be: no step of the plan is about them, whatever others
desire or have recorded. -/
namespace Byssus

/-- The member has the record `r` at its desired location, whose mount is at the target with
the recorded root, the configured attributes and no restriction seen missing. -/
structure Healthy (input : PlanInput) (d : DesiredMount) (r : MountRecord) : Prop where
  recorded : recordHere input d = some r
  mounted : ∃ identity attrs, input.target d.target = .mounted identity attrs ∧
    identity.matches r.identity = true ∧ ∀ o, attrs = some o → o.enforce d.attrs = true
  source : input.source d.key = .resolved r.identity.root
  attrs : r.attrs = d.attrs

section
variable {input : PlanInput} {d : DesiredMount} {r : MountRecord}

theorem Healthy.shows (h : Healthy input d r) : (input.target d.target).shows r = true := by
  obtain ⟨identity,attrs,ht,hi,-⟩ := h.mounted
  rw [ht]
  exact hi

theorem Healthy.verified (h : Healthy input d r) :
    isVerified input (input.target d.target) d = true := by
  obtain ⟨hg,hs,ht⟩ := recordHere_iff.mp h.recorded
  exact isVerified_iff.mpr ⟨r,hg,(recordMatchesDesired_iff r d).mpr ⟨hs,ht⟩,h.shows⟩

/-- There is nothing to do for the member. -/
theorem Healthy.memberActions_nil (h : Healthy input d r) : memberActions input d = [] := by
  obtain ⟨identity,attrs,ht,hi,ho⟩ := h.mounted
  have hreason : attributeReason d r attrs = none := by
    unfold attributeReason
    rw [if_neg (not_not_intro h.attrs)]
    cases attrs with
    | none => rfl
    | some o => simp [ho o rfl]
  simp [memberActions,h.recorded,recordedActions,ht,hi,h.source,hreason]

/-- Collisions are resolved in favour of the member that owns the mount. -/
theorem Healthy.accepts (h : Healthy input d r) (hd : d ∈ input.desired)
    (hf : d.key.group ∉ input.frozenGroups) (hone : ∀ e ∈ input.desired, e.key = d.key → e = d)
    (honly : ∀ q ∈ input.state.records, q.targetLocation = d.target →
      (input.target d.target).shows q = true → q = r) : Accepts input d := by
  refine ⟨?_,fun e he _ hk => .inl (hone e he hk)⟩
  apply chosen_of_verified (mem_membersAt.mpr ⟨hd,hf,rfl⟩) h.verified
  intro e he hv
  obtain ⟨hmem,-,het⟩ := mem_membersAt.mp he
  obtain ⟨q,hq,hmatch,hshow⟩ := isVerified_iff.mp hv
  have hql : q.targetLocation = d.target := ((recordMatchesDesired_iff q e).mp hmatch).2.trans het
  have hqr := honly q (State.mem_records_of_get hq) hql hshow
  apply hone e hmem
  rw [← State.key_of_get hq,hqr]
  exact State.key_of_get (recordHere_iff.mp h.recorded).1

/-- No step of the plan removes or replaces the record of a healthy member, or unmounts or
mounts at its target, whatever else is desired or recorded. -/
theorem healthy_not_displaced (h : Healthy input d r) (hd : d ∈ input.desired)
    (hf : d.key.group ∉ input.frozenGroups) (hone : ∀ e ∈ input.desired, e.key = d.key → e = d)
    (honly : ∀ q ∈ input.state.records, q.targetLocation = d.target →
      (input.target d.target).shows q = true → q = r) :
    ∀ a ∈ (plan input).steps.map Step.action, ¬a.Removes r ∧
      (∀ e, a = .mount e → e.key ≠ d.key ∧ e.target ≠ d.target) ∧
      ∀ q reason, a = .unmount q reason → q.targetLocation ≠ d.target := by
  intro a ha
  have hacc := h.accepts hd hf hone honly
  have hplanned := mem_plan_actions.mp ha
  have hkey := no_step_of_member hacc h.recorded h.memberActions_nil a hplanned
  have hrk : r.key = d.key := State.key_of_get (recordHere_iff.mp h.recorded).1
  refine ⟨fun hr => hkey (hr.key_eq.trans hrk),?_,?_⟩
  · rintro e rfl
    refine ⟨hkey,fun het => ?_⟩
    have heacc := (mount_mem_iff.mp hplanned).1
    exact hkey (congrArg DesiredMount.key (heacc.eq_of_target hacc het))
  · rintro q reason rfl hql
    -- only a mount that is seen is unmounted, and the one seen here is the member's own
    have hseen := plan_unmount_seen hplanned
    rw [hql] at hseen
    have hq := plan_removes_record ha (.inl ⟨reason,rfl⟩)
    have hqr := honly q hq hql hseen
    subst hqr
    exact hkey hrk

end

/-! A member that others collide with, from both sides of its key. -/
namespace SampleCrowd

open Sample

theorem valid_c : ValidName "c".toList := by decide

def c : Name := ⟨"c".toList,valid_c⟩

def input : PlanInput where
  desired := [desired group a "x",desired group b "x",desired group c "x"]
  state := state [record group a "y" 2 20,record group b "x" 1 10]
  frozenGroups := ∅
  observations := observations [(⟨group,b⟩,.resolved (dir 10)),(⟨group,a⟩,.resolved (dir 20))]
    [(view "x",.mounted (identity 1 10) none),(view "y",.mounted (identity 2 20) none)]

theorem healthy : Healthy input (desired group b "x") (record group b "x" 1 10) where
  recorded := by decide +kernel
  mounted := ⟨identity 1 10,none,by decide +kernel,by decide,fun o ho => by cases ho⟩
  source := by decide +kernel
  attrs := by decide

theorem healthy_not_displaced_run : (plan input).steps ≠ [] ∧
    ∀ action ∈ (plan input).steps.map Step.action, ¬action.Removes (record group b "x" 1 10) ∧
      (∀ e, action = .mount e → e.key ≠ ⟨group,b⟩ ∧ e.target ≠ view "x") ∧
      ∀ q reason, action = .unmount q reason → q.targetLocation ≠ view "x" :=
  ⟨by decide +kernel,
    healthy_not_displaced healthy (by decide) (by decide) (by decide +kernel) (by decide +kernel)⟩

end SampleCrowd
end Byssus
