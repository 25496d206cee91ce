import Byssus.Outcomes
import Byssus.PlanFrozen

/-! Passes in which nothing disturbs Byssus and every step succeeds: what they leave in
the mount table and in the records. -/
namespace Byssus

variable {D : Type}

/-- The observations are an accurate picture of the table, as far as it can be inspected. -/
def Accurate (dir : Location → D) (access : Location → Option String)
    (readable : Location → Bool) (unique : Bool) (t : Table D) (input : PlanInput) : Prop :=
  ∀ l, input.target l = match access l with
    | some reason => .unavailable reason
    | none => (t.openDir (dir l)).inspect unique (readable l)

/-- A pass that plans from an accurate picture of independent targets and executes every
step with success, while no other process acts. -/
structure FailureFree [DecidableEq D] (dir : Location → D) (access : Location → Option String)
    (readable : Location → Bool) (unique : Bool) (input : PlanInput) (env : ℕ → StepEnv D)
    (w : World D) : Prop where
  keys : (input.desired.map DesiredMount.key).Nodup
  independent : Function.Injective dir
  state : input.state = w.state
  accurate : Accurate dir access readable unique w.table input
  quiet : ∀ i op t, (env i).before op t = t
  resolves : ∀ (i : ℕ) step, (plan input).steps[i]? = some step →
    ∀ op, (env i).dir op = dir step.action.target
  source : ∀ (i : ℕ) d deps, (plan input).steps[i]? = some ⟨.mount d,deps⟩ →
    input.source d.key = .resolved (env i).source
  done : ∀ result ∈ (execute env unique (plan input) w).1, result = .done

section
variable [DecidableEq D] {env : StepEnv D} {unique : Bool} {w v : World D}

omit [DecidableEq D] in
theorem drifts_eq (h : ∀ op t, env.before op t = t) : Drifts Eq env where
  refl := fun _ => rfl
  trans := Eq.trans
  before := fun op t => (h op t).symm

omit [DecidableEq D] in
theorem intoResult_done {r : Except String Unit} (h : intoResult r = .done) : r = .ok () := by
  cases r with
  | ok _ => rfl
  | error e => cases h

/-- The effect of a successful mount. -/
theorem tryMount_ok (hq : ∀ op t, env.before op t = t) {d : DesiredMount}
    (h : (tryMount env unique d).run w = (.ok (),v)) :
    w.table (env.dir .ensureDirs) = [] ∧
      v.table = w.table.attach (env.dir .ensureDirs) (env.newMount d) ∧
      v.state = (w.state.insert (env.record unique d)).1 := by
  cases tryMount_run (drifts_eq hq) h with
  | recorded t ht =>
    obtain ⟨t₀,t₁,rfl,hempty,rfl,rfl⟩ := ht
    exact ⟨hempty,rfl,rfl⟩

/-- The effect of a successful unmount. -/
theorem tryUnmount_ok (hq : ∀ op t, env.before op t = t) {record : MountRecord}
    (h : (tryUnmount env unique record).run w = (.ok (),v)) :
    v.table = w.table.detach (env.dir .unmount) ∧ v.state = w.state.remove record.key := by
  cases tryUnmount_run (drifts_eq hq) h with
  | unmounted r m t t' disk ht hm hv ht' hd =>
    cases ht
    cases ht'
    exact ⟨rfl,rfl⟩

omit [DecidableEq D] in
/-- The effect of a successful record drop. -/
theorem dropRecord_ok (hq : ∀ op t, env.before op t = t) {record : MountRecord}
    (h : (dropRecord env record).run w = (.ok (),v)) :
    v.table = w.table ∧ v.state = w.state.remove record.key := by
  obtain ⟨t,disk,rfl,-,rfl⟩ := dropRecord_run (drifts_eq hq) h
  exact ⟨rfl,rfl⟩

end

/-- The target whose mount stack a step changes. -/
def Action.touches : Action → Option Location
  | .unmount record _ => some record.targetLocation
  | .dropRecord _ _ => none
  | .mount desired => some desired.target

theorem tail_suffix_tail {α : Type} {xs ys : List α} (h : xs <:+ ys) : xs.tail <:+ ys.tail := by
  obtain ⟨zs,rfl⟩ := h
  cases zs with
  | nil => exact List.suffix_refl _
  | cons z zs => exact (List.tail_suffix xs).trans (List.suffix_append zs xs)

/-- What the first `i` steps of a failure-free pass have done to the world `w₀`. -/
structure Progress (dir : Location → D) (unique : Bool) (input : PlanInput) (env : ℕ → StepEnv D)
    (w₀ : World D) (i : ℕ) (w : World D) : Prop where
  mounted : ∀ j < i, ∀ d deps, (plan input).steps[j]? = some ⟨.mount d,deps⟩ →
    w.state.get d.key = some ((env j).record unique d) ∧
      w.table (dir d.target) = [(env j).newMount d]
  removed : ∀ j < i, ∀ step r, (plan input).steps[j]? = some step → step.action.Removes r →
    (∀ j' < i, ∀ d deps, (plan input).steps[j']? = some ⟨.mount d,deps⟩ → d.key ≠ r.key) →
    w.state.get r.key = none
  kept : ∀ k, (∀ j < i, ∀ step, (plan input).steps[j]? = some step → step.action.key ≠ k) →
    w.state.get k = w₀.state.get k
  untouched : ∀ l, (∀ j < i, ∀ step, (plan input).steps[j]? = some step →
    step.action.touches ≠ some l) → w.table (dir l) = w₀.table (dir l)
  lower : ∀ e, w.table e <:+ w₀.table e ∨
    ∃ j < i, ∃ d deps, (plan input).steps[j]? = some ⟨.mount d,deps⟩ ∧ e = dir d.target
  unmounted : ∀ j < i, ∀ r reason deps, (plan input).steps[j]? = some ⟨.unmount r reason,deps⟩ →
    w.table (dir r.targetLocation) <:+ (w₀.table (dir r.targetLocation)).tail ∨
      ∃ j < i, ∃ d deps, (plan input).steps[j]? = some ⟨.mount d,deps⟩ ∧
        dir r.targetLocation = dir d.target

namespace Progress

variable {dir : Location → D} {unique : Bool} {input : PlanInput} {env : ℕ → StepEnv D}
  {w₀ w v : World D} {i : ℕ}

theorem start : Progress dir unique input env w₀ 0 w₀ where
  mounted := by intro j hj; omega
  removed := by intro j hj; omega
  kept := fun _ _ => rfl
  untouched := fun _ _ => rfl
  lower := fun e => .inl (List.suffix_refl _)
  unmounted := by intro j hj; omega

/-- A removal that leaves the table alone, or takes the top mount off its target. -/
theorem removal (h : Progress dir unique input env w₀ i w) (hdir : Function.Injective dir)
    {step : Step} {r : MountRecord} (hs : (plan input).steps[i]? = some step)
    (hr : step.action.Removes r) (hstate : v.state = w.state.remove r.key)
    (htable : (step.action.touches = none ∧ v.table = w.table) ∨
      (step.action.touches = some r.targetLocation ∧
        (∀ e, e ≠ dir r.targetLocation → v.table e = w.table e) ∧
        v.table (dir r.targetLocation) = (w.table (dir r.targetLocation)).tail)) :
    Progress dir unique input env w₀ (i+1) v := by
  -- removals come first, so nothing has been mounted yet
  have hnone : ∀ j < i+1, ∀ d deps, (plan input).steps[j]? ≠ some ⟨.mount d,deps⟩ := by
    intro j hj d deps hm
    have hlt := plan_removals_first hs hr hm
    omega
  have hlower : ∀ e, w.table e <:+ w₀.table e := by
    intro e
    rcases h.lower e with h | ⟨j,hj,d,deps,hm,-⟩
    · exact h
    · exact absurd hm (hnone j (by omega) d deps)
  have hsuffix : ∀ e, v.table e <:+ w.table e := by
    intro e
    rcases htable with ⟨-,ht⟩ | ⟨-,hne,ht⟩
    · rw [ht]
    · by_cases he : e = dir r.targetLocation
      · subst he
        rw [ht]
        exact List.tail_suffix _
      · rw [hne e he]
  refine ⟨?_,?_,?_,?_,?_,?_⟩
  · intro j hj d deps hm
    exact absurd hm (hnone j hj d deps)
  · intro j hj step' r' hs' hr' hno
    rw [hstate,State.get_remove]
    split_ifs with hk
    · rfl
    · have hji : j < i := by
        have hne : j ≠ i := by
          rintro rfl
          rw [hs] at hs'
          cases hs'
          apply hk
          rw [← hr.key_eq,← hr'.key_eq]
        omega
      exact h.removed j hji step' r' hs' hr' fun j' hj' => hno j' (by omega)
  · intro k hk
    rw [hstate,State.get_remove,if_neg]
    · exact h.kept k fun j hj => hk j (by omega)
    · have hki := hk i (by omega) step hs
      rwa [hr.key_eq] at hki
  · intro l hl
    have hli := hl i (by omega) step hs
    have hprev := h.untouched l fun j hj => hl j (by omega)
    rcases htable with ⟨-,ht⟩ | ⟨htl,hne,-⟩
    · rw [ht,hprev]
    · rw [hne,hprev]
      intro he
      apply hli
      rw [htl,hdir he]
  · intro e
    exact .inl ((hsuffix e).trans (hlower e))
  · intro j hj r' reason deps hs'
    left
    by_cases hji : j = i
    · subst hji
      rw [hs] at hs'
      cases hs'
      have hrr : r' = r := by
        rcases hr with ⟨_,he⟩ | ⟨_,he⟩ <;> cases he
        rfl
      subst hrr
      rcases htable with ⟨htl,-⟩ | ⟨-,-,ht⟩
      · cases htl
      · rw [ht]
        exact tail_suffix_tail (hlower _)
    · rcases h.unmounted j (by omega) r' reason deps hs' with h | ⟨j',hj',d,deps',hm,-⟩
      · exact (hsuffix _).trans h
      · exact absurd hm (hnone j' (by omega) d deps')

/-- A mount on a target where nothing was left. -/
theorem mount (h : Progress dir unique input env w₀ i w) (hdir : Function.Injective dir)
    {d : DesiredMount} {deps : List ℕ} (hs : (plan input).steps[i]? = some ⟨.mount d,deps⟩)
    (hstate : v.state = (w.state.insert ((env i).record unique d)).1)
    (hne : ∀ e, e ≠ dir d.target → v.table e = w.table e)
    (htable : v.table (dir d.target) = [(env i).newMount d]) :
    Progress dir unique input env w₀ (i+1) v := by
  have hget : ∀ k, k ≠ d.key → v.state.get k = w.state.get k := by
    intro k hk
    rw [hstate,State.get_insert,if_neg]
    exact fun h => hk h.symm
  have hother : ∀ {j d' deps'}, j < i → (plan input).steps[j]? = some ⟨.mount d',deps'⟩ →
      d'.key ≠ d.key ∧ d'.target ≠ d.target := by
    intro j d' deps' hj hm
    constructor
    · intro hk
      have hij := plan_mount_index_unique hm hs (.inl hk)
      omega
    · intro ht
      have hij := plan_mount_index_unique hm hs (.inr ht)
      omega
  refine ⟨?_,?_,?_,?_,?_,?_⟩
  · intro j hj d' deps' hm
    by_cases hji : j = i
    · subst hji
      rw [hs] at hm
      cases hm
      exact ⟨by rw [hstate,State.get_insert,if_pos (record_key _ _ _)],htable⟩
    · obtain ⟨hk,ht⟩ := hother (by omega) hm
      obtain ⟨h₁,h₂⟩ := h.mounted j (by omega) d' deps' hm
      exact ⟨by rw [hget _ hk,h₁],by rw [hne _ fun he => ht (hdir he),h₂]⟩
  · intro j hj step r hs' hr hno
    have hk : r.key ≠ d.key := fun hk => hno i (by omega) d deps hs hk.symm
    have hji : j < i := by
      have hne : j ≠ i := by
        rintro rfl
        rw [hs] at hs'
        cases hs'
        rcases hr with ⟨_,he⟩ | ⟨_,he⟩ <;> cases he
      omega
    rw [hget _ hk]
    exact h.removed j hji step r hs' hr fun j' hj' => hno j' (by omega)
  · intro k hk
    have hki := hk i (by omega) _ hs
    rw [hget k fun he => hki he.symm]
    exact h.kept k fun j hj => hk j (by omega)
  · intro l hl
    have hli := hl i (by omega) _ hs
    rw [hne]
    · exact h.untouched l fun j hj => hl j (by omega)
    · intro he
      apply hli
      rw [hdir he]
      rfl
  · intro e
    by_cases he : e = dir d.target
    · exact .inr ⟨i,by omega,d,deps,hs,he⟩
    · rw [hne e he]
      rcases h.lower e with h | ⟨j,hj,hh⟩
      · exact .inl h
      · exact .inr ⟨j,by omega,hh⟩
  · intro j hj r reason deps' hs'
    by_cases he : dir r.targetLocation = dir d.target
    · exact .inr ⟨i,by omega,d,deps,hs,he⟩
    · rw [hne _ he]
      have hji : j < i := by
        have hne : j ≠ i := by
          rintro rfl
          rw [hs] at hs'
          cases hs'
        omega
      rcases h.unmounted j hji r reason deps' hs' with h | ⟨j',hj',hh⟩
      · exact .inl h
      · exact .inr ⟨j',by omega,hh⟩

end Progress

section
variable [DecidableEq D] {dir : Location → D} {access : Location → Option String}
  {readable : Location → Bool} {unique : Bool} {input : PlanInput} {env : ℕ → StepEnv D}
  {w : World D}

/-- The world after the pass. -/
def after (env : ℕ → StepEnv D) (unique : Bool) (input : PlanInput) (w : World D) : World D :=
  (execute env unique (plan input) w).2

/-- A failure-free pass makes all of its progress. -/
theorem FailureFree.progress (h : FailureFree dir access readable unique input env w) :
    Progress dir unique input env w (plan input).steps.length (after env unique input w) := by
  unfold after
  refine execute_induction (P := fun i results v => (∀ result ∈ results, result = .done) →
    Progress dir unique input env w i v) (fun _ => Progress.start) ?_ ?_ h.done
  · intro i step results v _ _ _ hdone
    have hskip := hdone .skipped (by simp)
    cases hskip
  · intro i step results w' r v hs _ ih _ hr hdone
    have hp := ih fun result hm => hdone result (by simp [hm])
    have hok := intoResult_done (hdone (intoResult r) (by simp))
    subst hok
    have hdir := h.resolves i step hs
    obtain ⟨a,deps⟩ := step
    cases a with
    | mount d =>
      obtain ⟨hempty,ht,hst⟩ := tryMount_ok (h.quiet i) hr
      rw [hdir] at hempty ht
      refine hp.mount h.independent hs hst ?_ ?_
      · intro e he
        rw [ht]
        exact Table.attach_of_ne he
      · rw [ht]
        exact (Table.attach_same _ _ _).trans (by rw [hempty])
    | unmount record reason =>
      obtain ⟨ht,hst⟩ := tryUnmount_ok (h.quiet i) hr
      rw [hdir] at ht
      refine hp.removal h.independent hs (.inl ⟨reason,rfl⟩) hst (.inr ⟨rfl,?_,?_⟩)
      · intro e he
        rw [ht]
        exact Table.detach_of_ne he
      · rw [ht]
        exact Table.detach_same _ _
    | dropRecord record reason =>
      obtain ⟨ht,hst⟩ := dropRecord_ok (h.quiet i) hr
      exact hp.removal h.independent hs (.inr ⟨reason,rfl⟩) hst (.inl ⟨rfl,ht⟩)

/-! ### What the plan leaves -/

theorem mem_actions_iff {input : PlanInput} {a : Action} :
    a ∈ plannedActions input ↔
      ∃ (i : ℕ) (deps : List ℕ), (plan input).steps[i]? = some ⟨a,deps⟩ := by
  rw [← mem_plan_actions]
  constructor
  · intro h
    obtain ⟨⟨b,deps⟩,hm,rfl⟩ := List.mem_map.mp h
    obtain ⟨i,hi⟩ := List.mem_iff_getElem?.mp hm
    exact ⟨i,deps,hi⟩
  · rintro ⟨i,deps,h⟩
    exact List.mem_map.mpr ⟨_,List.mem_of_getElem? h,rfl⟩

theorem index_lt {α : Type} {xs : List α} {i : ℕ} {a : α} (h : xs[i]? = some a) :
    i < xs.length := (List.getElem?_eq_some_iff.mp h).1

/-- The record and the mount that `d` is left with. -/
structure LeftMounted (unique : Bool) (input : PlanInput) (d : DesiredMount) (r : MountRecord)
    (m : Mount) : Prop where
  identity : r.identity = m.readIdentity unique
  source : r.sourceLocation = d.source
  target : r.targetLocation = d.target
  attrs : r.attrs = d.attrs
  resolved : input.source d.key = .resolved r.identity.root
  enforced : m.attrs.enforce d.attrs = true

/-- A mountable member is mounted, alone at its target, and recorded. -/
theorem FailureFree.mounted (h : FailureFree dir access readable unique input env w)
    {d : DesiredMount} (hd : Action.mount d ∈ plannedActions input) :
    ∃ r m, (after env unique input w).state.get d.key = some r ∧
      (after env unique input w).table (dir d.target) = [m] ∧ LeftMounted unique input d r m ∧
      ∃ (i : ℕ) (deps : List ℕ), (plan input).steps[i]? = some ⟨.mount d,deps⟩ ∧
        m = (env i).newMount d := by
  obtain ⟨i,deps,hs⟩ := mem_actions_iff.mp hd
  obtain ⟨hget,htable⟩ := h.progress.mounted i (index_lt hs) d deps hs
  exact ⟨_,_,hget,htable,⟨rfl,rfl,rfl,rfl,h.source i d deps hs,add_attrBits_enforce _ _⟩,
    i,deps,hs,rfl⟩

/-- A removed record is gone, unless its member is mounted again. -/
theorem FailureFree.removed (h : FailureFree dir access readable unique input env w)
    {a : Action} {r : MountRecord} (ha : a ∈ plannedActions input) (hr : a.Removes r)
    (hno : ∀ d, Action.mount d ∈ plannedActions input → d.key ≠ r.key) :
    (after env unique input w).state.get r.key = none := by
  obtain ⟨i,deps,hs⟩ := mem_actions_iff.mp ha
  refine h.progress.removed i (index_lt hs) ⟨a,deps⟩ r hs hr ?_
  intro j _ d deps' hm
  exact hno d (mem_actions_iff.mpr ⟨j,deps',hm⟩)

/-- A member no step is about keeps its record, or has none still. -/
theorem FailureFree.kept (h : FailureFree dir access readable unique input env w) {k : RecordKey}
    (hno : ∀ a ∈ plannedActions input, a.key ≠ k) :
    (after env unique input w).state.get k = input.state.get k := by
  rw [h.state]
  apply h.progress.kept
  intro j _ step hs
  exact hno step.action (mem_actions_iff.mpr ⟨j,step.dependsOn,hs⟩)

/-- A target no step touches keeps its mounts. -/
theorem FailureFree.untouched (h : FailureFree dir access readable unique input env w)
    {l : Location} (hno : ∀ a ∈ plannedActions input, a.touches ≠ some l) :
    (after env unique input w).table (dir l) = w.table (dir l) := by
  apply h.progress.untouched
  intro j _ step hs
  exact hno step.action (mem_actions_iff.mpr ⟨j,step.dependsOn,hs⟩)

/-! ### Which steps are about a member or a target -/

/-- Accepted members are told apart by their targets. -/
theorem Accepts.eq_of_target {d e : DesiredMount} (hd : Accepts input d) (he : Accepts input e)
    (ht : d.target = e.target) : d = e := by
  have h := hd.1
  rw [ht,he.1] at h
  exact (Option.some.inj h).symm

/-- Accepted members are told apart by their keys. -/
theorem Accepts.eq_of_key {d e : DesiredMount} (hd : Accepts input d) (he : Accepts input e)
    (hk : d.key = e.key) : d = e := by
  have h₁ := (accepted_get input e.key d).mpr ⟨hk,hd⟩
  have h₂ := (accepted_get input e.key e).mpr ⟨rfl,he⟩
  rw [h₁] at h₂
  exact Option.some.inj h₂

theorem mem_plannedActions_of_member {d : DesiredMount} {a : Action} (hd : Accepts input d)
    (ha : a ∈ memberActions input d) : a ∈ plannedActions input :=
  List.mem_append_right _ (List.mem_flatMap.mpr ⟨(d.key,d),mem_accepted.mpr ⟨rfl,hd⟩,ha⟩)

theorem mem_plannedActions_of_record {r : MountRecord} {a : Action}
    (hr : r ∈ input.state.records) (ha : departAction input r = some a) :
    a ∈ plannedActions input :=
  List.mem_append_left _ (List.mem_filterMap.mpr ⟨r,hr,ha⟩)

theorem mount_mem_iff {d : DesiredMount} :
    Action.mount d ∈ plannedActions input ↔ Mountable input d := by
  rw [← mem_plan_actions,plan_mount_iff]

/-- A step about a member removes its departing record or is one of the member's own. -/
theorem plannedActions_key {a : Action} {k : RecordKey} (ha : a ∈ plannedActions input)
    (hk : a.key = k) : (∃ r, input.state.get k = some r ∧ departAction input r = some a) ∨
      ∃ d, Accepts input d ∧ d.key = k ∧ a ∈ memberActions input d := by
  rcases mem_plannedActions ha with ⟨r,hr,hra⟩ | ⟨d,hd,hda⟩
  · rw [(departAction_removes hra).key_eq] at hk
    rw [← hk]
    exact .inl ⟨r,State.mem_records.mp hr,hra⟩
  · refine .inr ⟨d,hd,?_,hda⟩
    rcases mem_memberActions hda with rfl | ⟨r,hr,hrem⟩
    · exact hk
    · rw [hrem.key_eq,State.key_of_get (recordHere_iff.mp hr).1] at hk
      exact hk

/-- A target is touched by the unmount of a departing record or by its own member. -/
theorem plannedActions_touches {a : Action} {l : Location} (ha : a ∈ plannedActions input)
    (hl : a.touches = some l) :
    (∃ q ∈ input.state.records, frees input q = true ∧ q.targetLocation = l) ∨
      ∃ d, Accepts input d ∧ d.target = l ∧ a ∈ memberActions input d := by
  rcases mem_plannedActions ha with ⟨r,hr,hra⟩ | ⟨d,hd,hda⟩
  · left
    cases a with
    | unmount r' reason =>
      obtain ⟨rfl,hf⟩ := departAction_unmount hra
      exact ⟨r',hr,hf,Option.some.inj hl⟩
    | dropRecord r' reason => cases hl
    | mount d => rcases departAction_removes hra with ⟨_,he⟩ | ⟨_,he⟩ <;> cases he
  · refine .inr ⟨d,hd,?_,hda⟩
    rcases mem_memberActions hda with rfl | ⟨r,hr,⟨_,rfl⟩ | ⟨_,rfl⟩⟩
    · exact Option.some.inj hl
    · rw [← (recordHere_iff.mp hr).2.2]
      exact Option.some.inj hl
    · cases hl

/-- What became of the record of a member: it is new, or no step was about the member. -/
theorem FailureFree.record_cases (h : FailureFree dir access readable unique input env w)
    {r : MountRecord} (hr : (after env unique input w).state.get r.key = some r) :
    (∃ d, Mountable input d ∧ d.key = r.key) ∨
      ((∀ a ∈ plannedActions input, a.key ≠ r.key) ∧ input.state.get r.key = some r) := by
  by_cases hm : ∃ d, Mountable input d ∧ d.key = r.key
  · exact .inl hm
  have hno : ∀ a ∈ plannedActions input, a.key ≠ r.key := by
    intro a ha hk
    rcases a.removes_or_mounts with ⟨q,hq⟩ | ⟨d,rfl⟩
    · have hnone := h.removed ha hq fun d hd hdk =>
        hm ⟨d,mount_mem_iff.mp hd,by rw [hdk,← hq.key_eq,hk]⟩
      rw [← hq.key_eq,hk,hr] at hnone
      cases hnone
    · exact hm ⟨d,mount_mem_iff.mp ha,hk⟩
  refine .inr ⟨hno,?_⟩
  rw [← h.kept hno]
  exact hr

end
end Byssus
