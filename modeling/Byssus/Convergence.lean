import Byssus.Postcondition

/-! Planning again after a failure-free pass finds nothing to do. -/
namespace Byssus

open Std

section
variable {D : Type} [DecidableEq D] {dir : Location → D} {access : Location → Option String}
  {readable : Location → Bool} {unique : Bool} {input input' : PlanInput}
  {env : ℕ → StepEnv D} {w : World D}

/-- The input of the next pass: the same membership, groups and sources, with the records
and an accurate picture of the mounts that the pass has left. -/
structure Replan (dir : Location → D) (access : Location → Option String)
    (readable : Location → Bool) (unique : Bool) (input : PlanInput) (env : ℕ → StepEnv D)
    (w : World D) (input' : PlanInput) : Prop where
  desired : input'.desired = input.desired
  frozen : input'.frozenGroups = input.frozenGroups
  sources : ∀ k, input'.source k = input.source k
  state : input'.state = (after env unique input w).state
  accurate : Accurate dir access readable unique (after env unique input w).table input'

theorem FailureFree.eq_of_key (h : FailureFree dir access readable unique input env w)
    {d e : DesiredMount} (hd : d ∈ input.desired) (he : e ∈ input.desired) (hk : d.key = e.key) :
    d = e :=
  List.inj_on_of_nodup_map h.keys hd he hk

/-- With each key desired once, acceptance is decided at the target. -/
theorem accepts_iff_chosen (hkeys : (input.desired.map DesiredMount.key).Nodup)
    {d : DesiredMount} : Accepts input d ↔ chosen input d.target = some d := by
  constructor
  · exact And.left
  · intro hc
    refine ⟨hc,fun e he _ hk => .inl ?_⟩
    exact List.inj_on_of_nodup_map hkeys he (chosen_mem hc).1 hk

/-- A kept member is alone at its target or verified there. -/
theorem chosen_cases {t : Location} {d : DesiredMount} (h : chosen input t = some d) :
    membersAt input t = [d] ∨ isVerified input (input.target t) d = true := by
  unfold chosen at h
  match hm : membersAt input t with
  | [] => simp [hm,keptOf,sortByKey] at h
  | [e] =>
    rw [hm] at h
    cases h
    exact .inl rfl
  | e::e'::ms =>
    rw [hm] at h
    exact .inr (List.find?_some h)

/-- The only verified member of a target is kept there. -/
theorem chosen_of_verified {t : Location} {d : DesiredMount} (hd : d ∈ membersAt input t)
    (hv : isVerified input (input.target t) d = true)
    (honly : ∀ e ∈ membersAt input t, isVerified input (input.target t) e = true → e = d) :
    chosen input t = some d := by
  unfold chosen
  match hm : membersAt input t with
  | [] => rw [hm] at hd; cases hd
  | [e] =>
    rw [hm] at hd
    rw [List.mem_singleton.mp hd]
    rfl
  | e::e'::ms =>
    have hmem : ∀ x, x ∈ sortByKey (e::e'::ms) ↔ x ∈ membersAt input t := by
      intro x
      rw [hm,(sortByKey_perm _).mem_iff]
    cases hf : (sortByKey (e::e'::ms)).find? (isVerified input (input.target t)) with
    | none => exact absurd hv (List.find?_eq_none.mp hf d ((hmem d).mpr hd))
    | some x =>
      have hx := honly x ((hmem x).mp (List.mem_of_find?_eq_some hf)) (List.find?_some hf)
      rw [← hx]
      exact hf

theorem isVerified_iff {t : TargetState} {d : DesiredMount} :
    isVerified input t d = true ↔ ∃ r, input.state.get d.key = some r ∧
      recordMatchesDesired r d = true ∧ t.shows r = true := by
  unfold isVerified
  cases input.state.get d.key with
  | none => simp
  | some r => simp

namespace Replan

/-- A target no step touches is observed as before. -/
theorem target_eq (h : FailureFree dir access readable unique input env w)
    (h' : Replan dir access readable unique input env w input') {l : Location}
    (hno : ∀ a ∈ plannedActions input, a.touches ≠ some l) : input'.target l = input.target l := by
  rw [h'.accurate l,h.accurate l]
  unfold Table.openDir
  rw [h.untouched hno]

theorem unavailable_iff (h : FailureFree dir access readable unique input env w)
    (h' : Replan dir access readable unique input env w input') {l : Location} {reason : String} :
    input'.target l = .unavailable reason ↔ input.target l = .unavailable reason := by
  rw [h'.accurate l,h.accurate l]
  cases access l with
  | some reason => rfl
  | none => simp [Fd.inspect_ne_unavailable]

theorem membersAt_eq (h' : Replan dir access readable unique input env w input') (t : Location) :
    membersAt input' t = membersAt input t := by
  unfold membersAt
  rw [h'.desired,h'.frozen]

/-- A member that is verified after the pass was accepted by it. -/
theorem accepts_of_verified (h : FailureFree dir access readable unique input env w)
    (h' : Replan dir access readable unique input env w input') {t : Location} {d : DesiredMount}
    (hd : d ∈ membersAt input t) (hv : isVerified input' (input'.target t) d = true) :
    Accepts input d := by
  obtain ⟨hmem,hf,ht⟩ := mem_membersAt.mp hd
  obtain ⟨r,hg,hm,hs⟩ := isVerified_iff.mp hv
  have hk : r.key = d.key := State.key_of_get hg
  rw [h'.state,← hk] at hg
  rcases h.record_cases hg with ⟨e,he,hek⟩ | ⟨hno,hin⟩
  · rw [h.eq_of_key hmem he.1.mem (by rw [hek,hk])]
    exact he.1
  have hrf : r.group ∉ input.frozenGroups := by
    have hkg : r.group = d.key.group := by rw [← hk]; rfl
    rwa [hkg]
  have hrm : r ∈ input.state.records := State.mem_records.mpr hin
  by_cases hdep : departs input r = true
  · exfalso
    cases ha : departAction input r with
    | some a =>
      exact hno a (mem_plannedActions_of_record hrm ha) (departAction_removes ha).key_eq
    | none =>
      obtain ⟨reason,hu⟩ := (departAction_none_iff hdep).mp ha
      rw [((recordMatchesDesired_iff r d).mp hm).2,ht] at hu
      rw [(unavailable_iff h h').mpr hu] at hs
      cases hs
  · obtain ⟨e,hacc,hek,-⟩ := recordHere_of_not_departs hrm hrf (by simpa using hdep)
    rw [h.eq_of_key hmem hacc.mem (by rw [hek,hk])]
    exact hacc

theorem keys' (h : FailureFree dir access readable unique input env w)
    (h' : Replan dir access readable unique input env w input') :
    (input'.desired.map DesiredMount.key).Nodup := by
  rw [h'.desired]
  exact h.keys

/-- The next pass accepts no other members. -/
theorem accepts_of_accepts' (h : FailureFree dir access readable unique input env w)
    (h' : Replan dir access readable unique input env w input') {d : DesiredMount}
    (hd : Accepts input' d) : Accepts input d := by
  have hmem : d ∈ membersAt input d.target := by
    rw [← h'.membersAt_eq]
    exact mem_membersAt.mpr (chosen_mem hd.1)
  rcases chosen_cases hd.1 with hone | hv
  · rw [h'.membersAt_eq] at hone
    rw [accepts_iff_chosen h.keys,chosen,hone]
    rfl
  · exact accepts_of_verified h h' hmem hv

/-- An accepted member that is alone at its target, or verified after the pass, is
accepted again. -/
theorem accepts'_of_accepts (h : FailureFree dir access readable unique input env w)
    (h' : Replan dir access readable unique input env w input') {d : DesiredMount}
    (hd : Accepts input d) (hv : membersAt input d.target = [d] ∨
      isVerified input' (input'.target d.target) d = true) : Accepts input' d := by
  rw [accepts_iff_chosen (keys' h h')]
  rcases hv with hone | hv
  · rw [chosen,h'.membersAt_eq,hone]
    rfl
  · apply chosen_of_verified _ hv
    · intro e he hev
      rw [h'.membersAt_eq] at he
      have hacc := accepts_of_verified h h' he hev
      exact hacc.eq_of_target hd (mem_membersAt.mp he).2.2
    · rw [h'.membersAt_eq]
      exact mem_membersAt.mpr (chosen_mem hd.1)

/-- A member mounted by the pass is accepted again, with its new record in place. -/
theorem of_mountable (h : FailureFree dir access readable unique input env w)
    (h' : Replan dir access readable unique input env w input') {d : DesiredMount}
    (hd : Mountable input d) : Accepts input' d ∧ memberActions input' d = [] := by
  obtain ⟨r,m,hget,htable,hleft,-⟩ := h.mounted (mount_mem_iff.mpr hd)
  rw [← h'.state] at hget
  have hhere : recordHere input' d = some r := recordHere_iff.mpr ⟨hget,hleft.source,hleft.target⟩
  have hinspectable : ∀ reason, input.target d.target ≠ .unavailable reason := by
    intro reason hu
    obtain ⟨-,-,⟨_,-,-,hn | ⟨_,_,_,ht,-⟩⟩ | ⟨-,hn | ⟨q,-,-,-,hs⟩⟩⟩ := hd
    · rw [hn] at hu; cases hu
    · rw [ht] at hu; cases hu
    · rw [hn] at hu; cases hu
    · rw [hu] at hs; cases hs
  have htarget : input'.target d.target =
      .mounted (m.readIdentity unique) (if readable d.target then some m.attrs else none) := by
    have hacc := h'.accurate d.target
    cases ha : access d.target with
    | some reason =>
      rw [ha] at hacc
      exact absurd ((unavailable_iff h h').mp hacc) (hinspectable reason)
    | none =>
      rw [ha] at hacc
      simpa [Table.openDir,htable,Fd.inspect] using hacc
  have hi : (m.readIdentity unique).matches r.identity = true := by
    rw [hleft.identity]
    exact MountIdentity.matches_self _
  constructor
  · refine accepts'_of_accepts h h' hd.1 (.inr ?_)
    exact isVerified_iff.mpr ⟨r,hget,(recordMatchesDesired_iff r d).mpr ⟨hleft.source,hleft.target⟩,
      by simp [htarget,TargetState.shows,hi]⟩
  · have hreason : ∀ b : Bool, attributeReason d r (if b then some m.attrs else none) = none := by
      intro b
      cases b <;> simp [attributeReason,hleft.attrs,hleft.enforced]
    have hs : input'.source d.key = .resolved r.identity.root := by
      rw [h'.sources]
      exact hleft.resolved
    simp [memberActions,hhere,recordedActions,htarget,hi,hs,hreason]

/-- What the pass leaves of an accepted member it had nothing to do for. -/
theorem target_of_settled (h : FailureFree dir access readable unique input env w)
    (h' : Replan dir access readable unique input env w input') (hdis : Disjoint input)
    {d : DesiredMount} {r : MountRecord} (hd : Accepts input d) (hr : recordHere input d = some r)
    (hnil : memberActions input d = []) :
    recordHere input' d = some r ∧ input'.target d.target = input.target d.target := by
  obtain ⟨hg,hs,ht⟩ := recordHere_iff.mp hr
  have hkept := h.kept (no_step_of_member hd hr hnil)
  refine ⟨recordHere_iff.mpr ⟨?_,hs,ht⟩,?_⟩
  · rw [h'.state,hkept,hg]
  · exact target_eq h h' (no_touch_of_member hd hnil ((hdis d hd).frees hr))

/-- No record departs with a step in the next pass. -/
theorem departAction_none (h : FailureFree dir access readable unique input env w)
    (h' : Replan dir access readable unique input env w input') (hdis : Disjoint input)
    {r : MountRecord} (hr : r ∈ input'.state.records) : departAction input' r = none := by
  have hget := State.mem_records.mp hr
  rw [h'.state] at hget
  by_contra hne
  obtain ⟨a,ha⟩ := Option.ne_none_iff_exists'.mp hne
  have hdep := departAction_departs ha
  have hf : r.group ∉ input.frozenGroups := by
    rw [← h'.frozen]
    exact (departs_iff.mp hdep).1
  -- it is enough that an accepted member is desired where the record says
  have hstays : ∀ d, Accepts input' d → recordHere input' d = some r → False := by
    intro d hd hhere
    rw [not_departs_of_recordHere hd hhere] at hdep
    cases hdep
  have hunavailable : ∀ reason, input.target r.targetLocation ≠ .unavailable reason := by
    intro reason hu
    have hn := (departAction_none_iff hdep).mpr ⟨reason,(unavailable_iff h h').mpr hu⟩
    rw [hn] at ha
    cases ha
  rcases h.record_cases hget with ⟨d,hd,hk⟩ | ⟨hno,hin⟩
  · obtain ⟨r',m,hget',-,hleft,-⟩ := h.mounted (mount_mem_iff.mpr hd)
    rw [hk,hget] at hget'
    cases hget'
    refine hstays d (of_mountable h h' hd).1 (recordHere_iff.mpr ⟨?_,hleft.source,hleft.target⟩)
    rw [h'.state,hk,hget]
  have hrm : r ∈ input.state.records := State.mem_records.mpr hin
  by_cases hdi : departs input r = true
  · cases hai : departAction input r with
    | some b =>
      exact hno b (mem_plannedActions_of_record hrm hai) (departAction_removes hai).key_eq
    | none =>
      obtain ⟨reason,hu⟩ := (departAction_none_iff hdi).mp hai
      exact hunavailable reason hu
  obtain ⟨d,hacc,hk,hhere⟩ := recordHere_of_not_departs hrm hf (by simpa using hdi)
  have hnil : memberActions input d = [] := by
    rw [List.eq_nil_iff_forall_not_mem]
    intro b hb
    rcases mem_memberActions hb with rfl | ⟨q,hq,hrem⟩
    · exact hno _ (mem_plannedActions_of_member hacc hb) hk
    · rw [hhere] at hq
      cases hq
      exact hno _ (mem_plannedActions_of_member hacc hb) hrem.key_eq
  obtain ⟨hhere',htarget⟩ := target_of_settled h h' hdis hacc hhere hnil
  apply hstays d _ hhere'
  apply accepts'_of_accepts h h' hacc
  rcases chosen_cases hacc.1 with hone | hv
  · exact .inl hone
  · right
    obtain ⟨r',hg,hm,hs⟩ := isVerified_iff.mp hv
    have hrr : r' = r := by
      rw [(recordHere_iff.mp hhere).1] at hg
      exact (Option.some.inj hg).symm
    subst hrr
    rw [htarget]
    exact isVerified_iff.mpr ⟨r',(recordHere_iff.mp hhere').1,hm,hs⟩

/-- Without a record at its location, a member whose source does not resolve has no step. -/
theorem unrecorded_nil {d : DesiredMount} {reason : String}
    (hs : input'.source d.key = .unavailable reason) : unrecordedActions input' d = [] := by
  simp [unrecordedActions,hs]

/-- A target that was not vacated, and where the member had no step, is not vacated later. -/
theorem vacated_eq (h : FailureFree dir access readable unique input env w)
    (h' : Replan dir access readable unique input env w input') (hdis : Disjoint input)
    {d : DesiredMount} (hd : Accepts input d) (hnil : memberActions input d = [])
    (hv : vacated input d.target = false) : vacated input' d.target = false := by
  have hfree : ∀ q ∈ input.state.records, frees input q = true → q.targetLocation ≠ d.target := by
    intro q hq hf ht
    simp only [frees,Bool.and_eq_true] at hf
    have hv' : vacated input d.target = true :=
      vacated_iff.mpr (.inr ⟨q,hq,departs_iff_leaves.mp hf.1,ht,by rw [← ht]; exact hf.2⟩)
    rw [hv] at hv'
    cases hv'
  have htarget := target_eq h h' (no_touch_of_member hd hnil hfree)
  by_contra hne
  rcases vacated_iff.mp (by simpa using hne) with hn | ⟨q,hq,hl,hqt,hs⟩
  · rw [htarget] at hn
    have hv' : vacated input d.target = true := vacated_iff.mpr (.inl hn)
    rw [hv] at hv'
    cases hv'
  · have hdep := departs_iff_leaves.mpr hl
    obtain ⟨reason,hu⟩ := (departAction_none_iff hdep).mp (departAction_none h h' hdis hq)
    rw [hqt] at hu
    rw [hu] at hs
    cases hs

/-- No accepted member has a step in the next pass. -/
theorem memberActions_nil (h : FailureFree dir access readable unique input env w)
    (h' : Replan dir access readable unique input env w input') (hdis : Disjoint input)
    {d : DesiredMount} (hd' : Accepts input' d) : memberActions input' d = [] := by
  have hd := accepts_of_accepts' h h' hd'
  by_cases hm : Mountable input d
  · exact (of_mountable h h' hm).2
  have hnomount : ∀ e, Action.mount e ∈ plannedActions input → e.key ≠ d.key := by
    intro e he hk
    apply hm
    rw [hd.eq_of_key (mount_mem_iff.mp he).1 hk.symm]
    exact mount_mem_iff.mp he
  have hnone : ∀ {a : Action} {r : MountRecord}, a ∈ plannedActions input → a.Removes r →
      r.key = d.key → recordHere input' d = none := by
    intro a r ha hr hk
    rw [recordHere_none_iff]
    intro r' hr'
    rw [h'.state,← hk,h.removed ha hr fun e he => by rw [hk]; exact hnomount e he] at hr'
    cases hr'
  have hsource := h'.sources d.key
  cases hr : recordHere input d with
  | some r =>
    cases hacts : memberActions input d with
    | nil =>
      obtain ⟨hhere',htarget⟩ := target_of_settled h h' hdis hd hr hacts
      rw [← hacts]
      simp only [memberActions,hr,hhere',recordedActions,htarget,hsource]
    | cons a as =>
      have hmem : a ∈ memberActions input d := by rw [hacts]; exact List.mem_cons_self
      rcases mem_memberActions hmem with rfl | ⟨q,hq,hrem⟩
      · exact absurd rfl (hnomount d (mem_plannedActions_of_member hd hmem))
      rw [hr] at hq
      cases hq
      have hk : r.key = d.key := State.key_of_get (recordHere_iff.mp hr).1
      have hn := hnone (mem_plannedActions_of_member hd hmem) hrem hk
      -- a removal without a mount: the source does not resolve
      have hunresolved : ∃ reason, input.source d.key = .unavailable reason := by
        cases hs : input.source d.key with
        | unavailable reason => exact ⟨reason,rfl⟩
        | resolved root =>
          exfalso
          have hall : Action.mount d ∈ memberActions input d := by
            simp only [memberActions,hr,recordedActions,hs] at hacts ⊢
            cases ht : input.target d.target with
            | notMounted => simp
            | unavailable reason => simp [ht] at hacts
            | mounted identity attrs =>
              by_cases hi : identity.matches r.identity = true
              · by_cases hroot : root = r.identity.root
                · cases hre : attributeReason d r attrs with
                  | none => simp [ht,hi,hroot,hre] at hacts
                  | some reason => simp [hi,hroot,hre]
                · simp [hi,hroot]
              · simp [ht,hi] at hacts
          exact hnomount d (mem_plannedActions_of_member hd hall) rfl
      obtain ⟨reason,hs⟩ := hunresolved
      rw [hs] at hsource
      simp only [memberActions,hn]
      exact unrecorded_nil hsource
  | none =>
    have hnil : memberActions input d = [] := by
      rw [List.eq_nil_iff_forall_not_mem]
      intro a ha
      rcases mem_memberActions ha with rfl | ⟨q,hq,-⟩
      · exact hnomount d (mem_plannedActions_of_member hd ha) rfl
      · rw [hr] at hq
        cases hq
    cases hs : input.source d.key with
    | unavailable reason =>
      rw [hs] at hsource
      have hun := unrecorded_nil hsource
      cases hhere' : recordHere input' d with
      | none => simp only [memberActions,hhere',hun]
      | some r =>
        exfalso
        -- a record at the member's location was there before or is a new one
        obtain ⟨hg,hrs,hrt⟩ := recordHere_iff.mp hhere'
        have hk : r.key = d.key := State.key_of_get hg
        rw [h'.state,← hk] at hg
        rcases h.record_cases hg with ⟨e,he,hek⟩ | ⟨-,hin⟩
        · exact hnomount e (mount_mem_iff.mpr he) (hek.trans hk)
        · rw [hk] at hin
          rw [recordHere_iff.mpr ⟨hin,hrs,hrt⟩] at hr
          cases hr
    | resolved root =>
      have hhere' : recordHere input' d = none := by
        rw [recordHere_none_iff]
        intro r hg
        have hk : r.key = d.key := State.key_of_get hg
        rw [h'.state,← hk] at hg
        rcases h.record_cases hg with ⟨e,he,hek⟩ | ⟨-,hin⟩
        · exact absurd (hek.trans hk) (hnomount e (mount_mem_iff.mpr he))
        · rw [hk] at hin
          exact recordHere_none_iff.mp hr r hin
      simp only [memberActions,hhere']
      by_cases hb : blocked input d.key = true
      · obtain ⟨r,hg,reason,hu⟩ := (blocked_iff hd hr).mp hb
        have hdep := departs_of_unrecorded hd hg hr
        have hkeep : ∀ a ∈ plannedActions input, a.key ≠ d.key := by
          intro a ha hk
          rcases plannedActions_key ha hk with ⟨r',hg',hra⟩ | ⟨e,he,hek,hea⟩
          · rw [hg] at hg'
            cases hg'
            rw [(departAction_none_iff hdep).mpr ⟨reason,hu⟩] at hra
            cases hra
          · rw [he.eq_of_key hd hek,hnil] at hea
            cases hea
        have hb' : blocked input' d.key = true := by
          rw [blocked_iff hd' hhere']
          refine ⟨r,?_,reason,(unavailable_iff h h').mpr hu⟩
          rw [h'.state,h.kept hkeep,hg]
        simp [unrecordedActions,hb']
      · have hv : vacated input d.target = false := by
          by_contra hv
          have hmem : Action.mount d ∈ memberActions input d := by
            simp only [memberActions,hr]
            exact mount_mem_unrecordedActions.mpr ⟨⟨root,hs⟩,by simpa using hb,by simpa using hv⟩
          rw [hnil] at hmem
          cases hmem
        simp [unrecordedActions,vacated_eq h h' hdis hd hnil hv]

end Replan

/-- Convergence: planning again after a failure-free pass plans no steps, if no departing
record owned the mount at a target where an accepted member has its own record. -/
theorem replan_is_noop (h : FailureFree dir access readable unique input env w)
    (h' : Replan dir access readable unique input env w input') (hdis : Disjoint input) :
    (plan input').steps = [] := by
  have hnil : plannedActions input' = [] := by
    unfold plannedActions
    rw [List.append_eq_nil_iff,List.filterMap_eq_nil_iff,List.flatMap_eq_nil_iff]
    constructor
    · intro r hr
      exact Replan.departAction_none h h' hdis hr
    · intro e he
      exact Replan.memberActions_nil h h' hdis (mem_accepted.mp he).2
  have hmap := plan_actions input'
  rw [hnil] at hmap
  exact List.map_eq_nil_iff.mp hmap

end

namespace FailureFreeRun

open Sample

/-- The input of the pass after the run, with what it sees at the targets. -/
def next (input : PlanInput) (mounts : List (Location × Mount))
    (sources : List (RecordKey × SourceState)) (seen : List (Location × TargetState)) :
    PlanInput where
  desired := input.desired
  state := (after (env input) true input (world input mounts)).state
  frozenGroups := input.frozenGroups
  observations := observations sources seen

/-- The new member is mounted and the old one gone: the second pass has nothing to do. -/
theorem replan_is_noop_run : (plan (next input [(view "x",mount 7 42)]
    [(⟨group,b⟩,.resolved (dir 43))]
    [(view "x",.notMounted),(view "y",mounted 101 43)])).steps = [] := by
  apply replan_is_noop failureFree
  · constructor
    · rfl
    · rfl
    · exact fun _ => rfl
    · rfl
    · apply accurate_of
      · decide +kernel
      · exact fun _ h => get_none_of h
  · intro d hd r hr
    have hdd : d = desired group b "y" := List.mem_singleton.mp hd.mem
    subst hdd
    have hn : recordHere input (desired group b "y") = none := by decide +kernel
    rw [hn] at hr
    cases hr

/-- Where a departing record owned the mount at a recorded member's target, the second
pass mounts that member. -/
theorem replan_has_steps :
    FailureFree id (access [view "x"]) (fun _ => false) true sharedInput (env sharedInput)
      (world sharedInput shared) ∧
    Replan id (access [view "x"]) (fun _ => false) true sharedInput (env sharedInput)
      (world sharedInput shared)
      (next sharedInput shared [(⟨group,b⟩,.resolved (dir 43))] [(view "x",.notMounted)]) ∧
    (plan (next sharedInput shared [(⟨group,b⟩,.resolved (dir 43))]
      [(view "x",.notMounted)])).steps = [⟨.mount (desired group b "x"),[]⟩] := by
  refine ⟨?_,?_,?_⟩
  · exact failureFree_of (by decide) (by decide +kernel) (fun _ h => get_none_of h)
      (by decide +kernel) (by decide +kernel)
  · constructor
    · rfl
    · rfl
    · exact fun _ => rfl
    · rfl
    · apply accurate_of
      · decide +kernel
      · exact fun _ h => get_none_of h
  · decide +kernel

end FailureFreeRun
end Byssus
