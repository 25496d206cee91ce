import Byssus.FailureFree

/-! What a failure-free pass guarantees: the full specification of reconciliation. -/
namespace Byssus

section
variable {D : Type} {dir : Location → D} {access : Location → Option String}
  {readable : Location → Bool} {unique : Bool} {input : PlanInput}

/-- The conditions under which a desired member ends mounted. -/
structure Eligible (input : PlanInput) (d : DesiredMount) (root : DevIno) : Prop where
  accepted : (accepted input)[d.key]? = some d
  resolved : input.source d.key = .resolved root
  /-- Nothing is at the target, or the member's own verified mount, or the mount of a
  departing record. -/
  place : input.target d.target = .notMounted ∨
    (∃ r, recordHere input d = some r ∧ (input.target d.target).shows r = true) ∨
    ∃ q ∈ input.state.records, Leaves input q ∧ q.targetLocation = d.target ∧
      (input.target d.target).shows q = true
  /-- The member's record at another location, if any, can be inspected. -/
  previous : ∀ r, input.state.get d.key = some r → recordMatchesDesired r d = false →
    ∀ reason, input.target r.targetLocation ≠ .unavailable reason

/-- No departing record verifiably owns the mount at the member's target, if the member has its
own record there. -/
def Undisputed (input : PlanInput) (d : DesiredMount) : Prop :=
  ∀ r, recordHere input d = some r → ∀ q ∈ input.state.records,
    Leaves input q → q.targetLocation = d.target → (input.target d.target).shows q = false

/-- This holds of every accepted member. -/
def Disjoint (input : PlanInput) : Prop := ∀ d, Accepts input d → Undisputed input d

/-- The record `r` of the state describes the mount on top at its target. -/
def Holds (dir : Location → D) (unique : Bool) (t : Table D) (r : MountRecord) (m : Mount) :
    Prop :=
  (t (dir r.targetLocation)).head? = some m ∧ (m.readIdentity unique).matches r.identity = true

/-- No record of a group that is not frozen describes the mount that `r` describes. -/
def Unshared (dir : Location → D) (unique : Bool) (input : PlanInput) (t : Table D)
    (r : MountRecord) : Prop :=
  ∀ q ∈ input.state.records, q.group ∉ input.frozenGroups → q.targetLocation = r.targetLocation →
    ∀ m, Holds dir unique t r m → ¬Holds dir unique t q m

/-- A member ends mounted at its target, with a record of its source, target, source
root and attributes. -/
def EndsMounted (dir : Location → D) (unique : Bool) (d : DesiredMount) (root : DevIno)
    (w : World D) : Prop :=
  ∃ r m, w.state.get d.key = some r ∧ Holds dir unique w.table r m ∧
    r.sourceLocation = d.source ∧ r.targetLocation = d.target ∧ r.identity.root = root ∧
    r.attrs = d.attrs

/-- The postcondition of a pass from the world `w` to the world `v`. -/
structure Postcondition (dir : Location → D) (unique : Bool) (input : PlanInput)
    (w v : World D) : Prop where
  mounted : ∀ d root, Eligible input d root → Undisputed input d → EndsMounted dir unique d root v
  unmounted : ∀ r ∈ input.state.records, r.group ∉ input.frozenGroups →
    (∀ d ∈ input.desired, d.key ≠ r.key) → (input.target r.targetLocation).shows r = true →
    v.state.get r.key = none ∧
      ∀ m, Holds dir unique w.table r m → m ∉ v.table (dir r.targetLocation)
  remaining : ∀ r ∈ v.state.records, r.group ∉ input.frozenGroups →
    (∃ d root, Eligible input d root ∧ v.state.get d.key = some r) ∨
      (∃ reason, input.target r.targetLocation = .unavailable reason) ∨
      ∃ d ∈ input.desired, d.key = r.key ∧ recordMatchesDesired r d = true ∧
        ∃ identity attrs, input.target r.targetLocation = .mounted identity attrs ∧
          identity.matches r.identity = false
  frozenRecords : ∀ k, k.group ∈ input.frozenGroups → v.state.get k = input.state.get k
  frozenMounts : ∀ r ∈ input.state.records, r.group ∈ input.frozenGroups →
    Unshared dir unique input w.table r → ∀ m, Holds dir unique w.table r m →
      v.table (dir r.targetLocation) = w.table (dir r.targetLocation)

theorem Accurate.shows_iff {t : Table D} (h : Accurate dir access readable unique t input)
    {l : Location} {r : MountRecord} : (input.target l).shows r = true ↔ access l = none ∧
      ∃ m, (t (dir l)).head? = some m ∧ (m.readIdentity unique).matches r.identity = true := by
  rw [h l]
  cases access l with
  | some reason => simp [TargetState.shows]
  | none =>
    cases hh : (t (dir l)).head? with
    | none => simp [Fd.inspect,Table.openDir,hh,TargetState.shows]
    | some m => simp [Fd.inspect,Table.openDir,hh,TargetState.shows]

/-- A departing record has no accepted member at its location. -/
theorem recordHere_of_not_departs {r : MountRecord} (hr : r ∈ input.state.records)
    (hf : r.group ∉ input.frozenGroups) (hd : departs input r = false) :
    ∃ d, Accepts input d ∧ d.key = r.key ∧ recordHere input d = some r := by
  by_contra hno
  have hall : ∀ d, Accepts input d → d.key = r.key → recordMatchesDesired r d = false := by
    intro d ha hk
    by_contra hm
    apply hno
    refine ⟨d,ha,hk,?_⟩
    have hm : recordMatchesDesired r d = true := by simpa using hm
    obtain ⟨hs,ht⟩ := (recordMatchesDesired_iff r d).mp hm
    exact recordHere_iff.mpr ⟨by rw [hk]; exact State.mem_records.mp hr,hs,ht⟩
  rw [departs_iff.mpr ⟨hf,hall⟩] at hd
  cases hd

theorem not_departs_of_recordHere {d : DesiredMount} {r : MountRecord} (hd : Accepts input d)
    (hr : recordHere input d = some r) : departs input r = false := by
  by_contra h
  have h : departs input r = true := by simpa using h
  obtain ⟨hg,hs,ht⟩ := recordHere_iff.mp hr
  have hm := (departs_iff.mp h).2 d hd (State.key_of_get hg).symm
  rw [(recordMatchesDesired_iff r d).mpr ⟨hs,ht⟩] at hm
  cases hm

theorem Mountable.eligible {d : DesiredMount} (h : Mountable input d) :
    ∃ root, Eligible input d root := by
  obtain ⟨ha,⟨root,hroot⟩,hcase⟩ := h
  have hacc : (accepted input)[d.key]? = some d := (accepted_get input d.key d).mpr ⟨rfl,ha⟩
  refine ⟨root,hacc,hroot,?_,?_⟩
  · rcases hcase with ⟨r,hg,hm,hn | ⟨identity,attrs,_,ht,hi,-⟩⟩ | ⟨-,hn | hfreed⟩
    · exact .inl hn
    · obtain ⟨hs,htl⟩ := (recordMatchesDesired_iff r d).mp hm
      refine .inr (.inl ⟨r,recordHere_iff.mpr ⟨hg,hs,htl⟩,?_⟩)
      simpa [ht,TargetState.shows] using hi
    · exact .inl hn
    · exact .inr (.inr hfreed)
  · intro r hg hm reason
    rcases hcase with ⟨r',hg',hm',-⟩ | ⟨hall,-⟩
    · rw [hg] at hg'
      cases hg'
      rw [hm] at hm'
      cases hm'
    · exact (hall r hg).2 reason

/-- An eligible member that is not mounted by the pass is mounted already, as desired. -/
theorem Eligible.settled {d : DesiredMount} {root : DevIno} (h : Eligible input d root)
    (hdis : Undisputed input d) (hm : ¬Mountable input d) : ∃ r, recordHere input d = some r ∧
      (input.target d.target).shows r = true ∧ root = r.identity.root ∧ r.attrs = d.attrs ∧
      memberActions input d = [] := by
  have ha : Accepts input d := ((accepted_get input d.key d).mp h.accepted).2
  cases hr : recordHere input d with
  | none =>
    exfalso
    apply hm
    refine ⟨ha,⟨root,h.resolved⟩,.inr ⟨?_,?_⟩⟩
    · intro r hg
      have hn := recordHere_none_iff.mp hr r hg
      exact ⟨hn,h.previous r hg hn⟩
    · rcases h.place with hn | ⟨r,hr',-⟩ | hfreed
      · exact .inl hn
      · rw [hr] at hr'
        cases hr'
      · exact .inr hfreed
  | some r =>
    obtain ⟨hg,hs,htl⟩ := recordHere_iff.mp hr
    have hmatch := (recordMatchesDesired_iff r d).mpr ⟨hs,htl⟩
    have hshow : (input.target d.target).shows r = true := by
      rcases h.place with hn | ⟨r',hr',hsh⟩ | ⟨q,hq,hl,hqt,hsh⟩
      · exact absurd ⟨ha,⟨root,h.resolved⟩,.inl ⟨r,hg,hmatch,.inl hn⟩⟩ hm
      · rw [hr] at hr'
        cases hr'
        exact hsh
      · rw [hdis r hr q hq hl hqt] at hsh
        cases hsh
    cases ht : input.target d.target with
    | notMounted => simp [ht,TargetState.shows] at hshow
    | unavailable reason => simp [ht,TargetState.shows] at hshow
    | mounted identity attrs =>
      have hi : identity.matches r.identity = true := by
        simpa [ht,TargetState.shows] using hshow
      have hnr : ¬Renews input d r := fun hr' =>
        hm ⟨ha,⟨root,h.resolved⟩,.inl ⟨r,hg,hmatch,.inr hr'⟩⟩
      have hroot : root = r.identity.root := by
        by_contra hne
        exact hnr ⟨identity,attrs,root,ht,hi,h.resolved,.inl hne⟩
      have hreason : attributeReason d r attrs = none := by
        by_contra hne
        exact hnr ⟨identity,attrs,root,ht,hi,h.resolved,.inr (Option.isSome_iff_ne_none.mpr hne)⟩
      have hattrs : r.attrs = d.attrs := by
        by_contra hne
        simp [attributeReason,hne] at hreason
      refine ⟨r,rfl,by rw [← ht]; exact hshow,hroot,hattrs,?_⟩
      simp [memberActions,hr,recordedActions,ht,hi,h.resolved,hroot,hreason]

/-- A member without steps of its own: no step is about it, if it does not depart. -/
theorem no_step_of_member {d : DesiredMount} {r : MountRecord} (hd : Accepts input d)
    (hr : recordHere input d = some r) (hnil : memberActions input d = []) :
    ∀ a ∈ plannedActions input, a.key ≠ d.key := by
  intro a ha hk
  rcases plannedActions_key ha hk with ⟨r',hg,hra⟩ | ⟨e,he,hek,hea⟩
  · rw [(recordHere_iff.mp hr).1] at hg
    cases hg
    have hdep := departAction_departs hra
    rw [not_departs_of_recordHere hd hr] at hdep
    cases hdep
  · rw [he.eq_of_key hd hek,hnil] at hea
    cases hea

/-- A target of a member without steps of its own is touched only by a departing record. -/
theorem no_touch_of_member {d : DesiredMount} (hd : Accepts input d)
    (hnil : memberActions input d = [])
    (hfree : ∀ q ∈ input.state.records, frees input q = true → q.targetLocation ≠ d.target) :
    ∀ a ∈ plannedActions input, a.touches ≠ some d.target := by
  intro a ha hl
  rcases plannedActions_touches ha hl with ⟨q,hq,hf,ht⟩ | ⟨e,he,het,hea⟩
  · exact hfree q hq hf ht
  · rw [he.eq_of_target hd het,hnil] at hea
    cases hea

theorem Undisputed.frees {d : DesiredMount} {r : MountRecord} (h : Undisputed input d)
    (hr : recordHere input d = some r) :
    ∀ q ∈ input.state.records, frees input q = true → q.targetLocation ≠ d.target := by
  intro q hq hf ht
  simp only [Byssus.frees,Bool.and_eq_true] at hf
  rw [ht,h r hr q hq (departs_iff_leaves.mp hf.1) ht] at hf
  cases hf.2

section
variable [DecidableEq D] {env : ℕ → StepEnv D} {w : World D}

namespace FailureFree

/-- An eligible member ends mounted. -/
theorem endsMounted (h : FailureFree dir access readable unique input env w)
    {d : DesiredMount} {root : DevIno} (hd : Eligible input d root) (hdis : Undisputed input d) :
    EndsMounted dir unique d root (after env unique input w) := by
  by_cases hm : Mountable input d
  · obtain ⟨r,m,hget,htable,hleft,-⟩ := h.mounted (mount_mem_iff.mpr hm)
    refine ⟨r,m,hget,⟨?_,?_⟩,hleft.source,hleft.target,?_,hleft.attrs⟩
    · rw [hleft.target,htable]
      rfl
    · rw [hleft.identity]
      exact MountIdentity.matches_self _
    · have hres := hleft.resolved
      rw [hd.resolved] at hres
      cases hres
      rfl
  · have ha : Accepts input d := ((accepted_get input d.key d).mp hd.accepted).2
    obtain ⟨r,hr,hshow,hroot,hattrs,hnil⟩ := hd.settled hdis hm
    obtain ⟨hg,hs,ht⟩ := recordHere_iff.mp hr
    have hstate := h.kept (no_step_of_member ha hr hnil)
    have htable := h.untouched (no_touch_of_member ha hnil (hdis.frees hr))
    obtain ⟨-,m,htop,hi⟩ := h.accurate.shows_iff.mp hshow
    refine ⟨r,m,by rw [hstate,hg],⟨?_,hi⟩,hs,ht,hroot.symm,hattrs⟩
    rw [ht,htable,htop]

/-- The verified mount of a member that is no longer desired is gone, with its record. -/
theorem removed_of_undesired (h : FailureFree dir access readable unique input env w)
    (hnodup : ∀ e, (w.table e).Nodup)
    (hfresh : ∀ (i : ℕ) d deps, (plan input).steps[i]? = some ⟨.mount d,deps⟩ → ∀ e,
      (env i).newMount d ∉ w.table e)
    {r : MountRecord} (hr : r ∈ input.state.records) (hf : r.group ∉ input.frozenGroups)
    (hno : ∀ d ∈ input.desired, d.key ≠ r.key)
    (hs : (input.target r.targetLocation).shows r = true) :
    (after env unique input w).state.get r.key = none ∧ ∀ m, Holds dir unique w.table r m →
      m ∉ (after env unique input w).table (dir r.targetLocation) := by
  have hd : departs input r = true := by
    rw [departs_iff]
    exact ⟨hf,fun d ha hk => absurd hk (hno d ha.mem)⟩
  have ha : ∃ reason, departAction input r = some (.unmount r reason) := by
    cases ht : input.target r.targetLocation with
    | notMounted => simp [ht,TargetState.shows] at hs
    | unavailable reason => simp [ht,TargetState.shows] at hs
    | mounted identity attrs =>
      have hi : identity.matches r.identity = true := by
        simpa [ht,TargetState.shows] using hs
      exact ⟨_,by simp [departAction,hd,ht,hi]; rfl⟩
  obtain ⟨reason,ha⟩ := ha
  have hmem := mem_plannedActions_of_record hr ha
  constructor
  · apply h.removed hmem (.inl ⟨reason,rfl⟩)
    intro d hd'
    exact hno d (mount_mem_iff.mp hd').1.mem
  · intro m hm hin
    obtain ⟨rest,hw⟩ : ∃ rest, w.table (dir r.targetLocation) = m::rest :=
      List.head?_eq_some_iff.mp hm.1
    obtain ⟨i,deps,hi⟩ := mem_actions_iff.mp hmem
    have hrest : m ∉ rest := by
      have hnd := hnodup (dir r.targetLocation)
      rw [hw] at hnd
      exact (List.nodup_cons.mp hnd).1
    rcases h.progress.unmounted i (index_lt hi) r reason deps hi with hsuf | ⟨j,hj,d,deps',hjd,he⟩
    · rw [hw] at hsuf
      exact hrest (hsuf.subset hin)
    · have hone := (h.progress.mounted j hj d deps' hjd).2
      rw [he,hone] at hin
      apply hfresh j d deps' hjd (dir r.targetLocation)
      rw [← List.mem_singleton.mp hin,hw]
      exact List.mem_cons_self

/-- The records that remain are those of eligible members, and those whose target could
not be inspected or shows another mount although the member is desired there. -/
theorem remaining_record (h : FailureFree dir access readable unique input env w)
    {r : MountRecord} (hr : r ∈ (after env unique input w).state.records)
    (hf : r.group ∉ input.frozenGroups) :
    (∃ d root, Eligible input d root ∧ (after env unique input w).state.get d.key = some r) ∨
      (∃ reason, input.target r.targetLocation = .unavailable reason) ∨
      ∃ d ∈ input.desired, d.key = r.key ∧ recordMatchesDesired r d = true ∧
        ∃ identity attrs, input.target r.targetLocation = .mounted identity attrs ∧
          identity.matches r.identity = false := by
  have hget := State.mem_records.mp hr
  rcases h.record_cases hget with ⟨d,hd,hk⟩ | ⟨hno,hin⟩
  · obtain ⟨root,he⟩ := hd.eligible
    exact .inl ⟨d,root,he,by rw [hk]; exact hget⟩
  have hmem : r ∈ input.state.records := State.mem_records.mpr hin
  by_cases hd : departs input r = true
  · cases ha : departAction input r with
    | none => exact .inr (.inl ((departAction_none_iff hd).mp ha))
    | some a =>
      exact absurd (departAction_removes ha).key_eq (hno a (mem_plannedActions_of_record hmem ha))
  obtain ⟨d,hacc,hk,hhere⟩ := recordHere_of_not_departs hmem hf (by simpa using hd)
  have hnil : memberActions input d = [] := by
    rw [List.eq_nil_iff_forall_not_mem]
    intro a ha
    rcases mem_memberActions ha with rfl | ⟨q,hq,hrem⟩
    · exact hno _ (mem_plannedActions_of_member hacc ha) hk
    · rw [hhere] at hq
      cases hq
      exact hno _ (mem_plannedActions_of_member hacc ha) hrem.key_eq
  obtain ⟨-,hsl,htl⟩ := recordHere_iff.mp hhere
  simp only [memberActions,hhere,recordedActions] at hnil
  cases ht : input.target d.target with
  | unavailable reason => exact .inr (.inl ⟨reason,by rw [htl,ht]⟩)
  | notMounted => cases hs : input.source d.key <;> simp [ht,hs] at hnil
  | mounted identity attrs =>
    by_cases hi : identity.matches r.identity = true
    · cases hs : input.source d.key with
      | unavailable reason => simp [ht,hi,hs] at hnil
      | resolved root =>
        refine .inl ⟨d,root,⟨(accepted_get input d.key d).mpr ⟨rfl,hacc⟩,hs,?_,?_⟩,
          by rw [hk]; exact hget⟩
        · exact .inr (.inl ⟨r,hhere,by simpa [ht,TargetState.shows] using hi⟩)
        · intro q hq hqm
          rw [(recordHere_iff.mp hhere).1] at hq
          cases hq
          rw [(recordMatchesDesired_iff r d).mpr ⟨hsl,htl⟩] at hqm
          cases hqm
    · refine .inr (.inr ⟨d,hacc.mem,hk,(recordMatchesDesired_iff r d).mpr ⟨hsl,htl⟩,
        identity,attrs,by rw [htl,ht],by simpa using hi⟩)

/-- The mount that a frozen record describes stays where it is. -/
theorem frozen_untouched (h : FailureFree dir access readable unique input env w)
    {r : MountRecord} (hapart : Unshared dir unique input w.table r) {m : Mount}
    (hm : Holds dir unique w.table r m) :
    (after env unique input w).table (dir r.targetLocation) =
      w.table (dir r.targetLocation) := by
  -- no verified record of another group owns that mount
  have hshows : ∀ q ∈ input.state.records, q.group ∉ input.frozenGroups →
      q.targetLocation = r.targetLocation → (input.target r.targetLocation).shows q = false := by
    intro q hq hqf hqt
    by_contra hs
    obtain ⟨-,x,htop,hi⟩ := h.accurate.shows_iff.mp (by simpa using hs)
    rw [hm.1] at htop
    cases htop
    exact hapart q hq hqf hqt m hm ⟨by rw [hqt]; exact hm.1,hi⟩
  have hunmount : ∀ q reason, Action.unmount q reason ∈ plannedActions input →
      q.targetLocation ≠ r.targetLocation := by
    intro q reason hq hqt
    have hplan := mem_plan_actions.mpr hq
    have hqr := plan_removes_record hplan (.inl ⟨reason,rfl⟩)
    have hs := plan_unmount_seen hq
    rw [hqt,hshows q hqr (plan_notFrozen hplan) hqt] at hs
    cases hs
  apply h.untouched
  intro a ha hl
  cases a with
  | unmount q reason => exact hunmount q reason ha (Option.some.inj hl)
  | dropRecord q reason => cases hl
  | mount d =>
    have hdt : d.target = r.targetLocation := Option.some.inj hl
    obtain ⟨hacc,-,hcase⟩ := mount_mem_iff.mp ha
    have hnot : input.target d.target ≠ .notMounted := by
      rw [hdt,h.accurate]
      cases access r.targetLocation with
      | some reason => simp
      | none => simp [Fd.inspect,Table.openDir,hm.1]
    rcases hcase with ⟨q,hg,hqm,hn | ⟨identity,attrs,_,ht,hi,-⟩⟩ | ⟨-,hn | ⟨q,hq,hleaves,hqt,hs⟩⟩
    · exact hnot hn
    · have hqt := ((recordMatchesDesired_iff q d).mp hqm).2
      have hqf : q.group ∉ input.frozenGroups := by
        have hnf := hacc.notFrozen
        rw [← State.key_of_get hg] at hnf
        exact hnf
      have hs := hshows q (State.mem_records_of_get hg) hqf (hqt.trans hdt)
      rw [← hdt,ht] at hs
      simp [TargetState.shows,hi] at hs
    · exact hnot hn
    · rw [hdt,hshows q hq hleaves.1 (hqt.trans hdt)] at hs
      cases hs

end FailureFree

/-- The postcondition of every failure-free pass, when the mounts on a directory are distinct and
a new one is none of those attached before. -/
theorem failureFree_postcondition (h : FailureFree dir access readable unique input env w)
    (hnodup : ∀ e, (w.table e).Nodup)
    (hfresh : ∀ (i : ℕ) d deps, (plan input).steps[i]? = some ⟨.mount d,deps⟩ → ∀ e,
      (env i).newMount d ∉ w.table e) :
    Postcondition dir unique input w (after env unique input w) where
  mounted := by
    intro d root hd hdis
    exact h.endsMounted hd hdis
  unmounted := by
    intro r hr hf hno hs
    exact h.removed_of_undesired hnodup hfresh hr hf hno hs
  remaining := by
    intro r hr hf
    exact h.remaining_record hr hf
  frozenRecords := by
    intro k hk
    apply h.kept
    intro a ha hak
    apply plan_notFrozen (mem_plan_actions.mpr ha)
    rwa [hak]
  frozenMounts := by
    intro r _ _ hapart m hm
    exact h.frozen_untouched hapart hm

end
end

/-! ### Runs -/

namespace FailureFreeRun

open Sample

/-- Every target but those inspected is reported as not observed. -/
def access (inspected : List Location) (l : Location) : Option String :=
  if l ∈ inspected then none else some "target was not observed"

def mounted (id ino : ℕ) : TargetState := .mounted (identity id ino) none
def mount (id ino : ℕ) : Mount := ⟨identity id ino,attrBits .default⟩

def tableOf (mounts : List (Location × Mount)) : Table Location := fun l =>
  (mounts.filter fun e => e.1 = l).map Prod.snd

/-- Nobody else acts, nothing fails, and every path is its own directory. -/
def env (input : PlanInput) (i : ℕ) : StepEnv Location where
  before := fun _ t => t
  fault := fun _ => none
  dir := fun _ => ((plan input).steps[i]?.map fun s => s.action.target).getD (view "")
  source := Sample.dir 43
  mntId := 100+i
  mntIdUnique := some (100+i)
  inherited := ⟨false,false,false,false,false⟩
  now := 0

def world (input : PlanInput) (mounts : List (Location × Mount)) : World Location :=
  ⟨tableOf mounts,input.state,input.state,[]⟩

theorem accurate_of {input : PlanInput} {inspected : List Location} {t : Table Location}
    (hseen : ∀ l ∈ inspected, input.target l = (t.openDir l).inspect true false)
    (hrest : ∀ l, l ∉ inspected → input.observations.targets[l]? = none) :
    Accurate id (access inspected) (fun _ => false) true t input := by
  intro l
  by_cases hl : l ∈ inspected
  · simp [access,hl,hseen l hl]
  · simp [access,hl,PlanInput.target,hrest l hl]

theorem resolves_of (input : PlanInput) (i : ℕ) (step : Step)
    (h : (plan input).steps[i]? = some step) (op : Op) :
    (env input i).dir op = id step.action.target := by
  simp [env,h]

/-- A run of these is failure-free if its steps succeed and its sources are as observed. -/
theorem failureFree_of {input : PlanInput} {inspected : List Location}
    {mounts : List (Location × Mount)} (hkeys : (input.desired.map DesiredMount.key).Nodup)
    (hseen : ∀ l ∈ inspected, input.target l = (Table.openDir (tableOf mounts) l).inspect true false)
    (hrest : ∀ l, l ∉ inspected → input.observations.targets[l]? = none)
    (hsource : ∀ step ∈ (plan input).steps, ∀ d ∈ step.action.mounts,
      input.source d.key = .resolved (Sample.dir 43))
    (hdone : ∀ result ∈ (execute (env input) true (plan input) (world input mounts)).1,
      result = .done) :
    FailureFree id (access inspected) (fun _ => false) true input (env input)
      (world input mounts) where
  keys := hkeys
  independent := Function.injective_id
  state := rfl
  accurate := accurate_of hseen hrest
  quiet := fun _ _ _ => rfl
  resolves := resolves_of input
  source := fun _ d _ h => hsource _ (List.mem_of_getElem? h) d rfl
  done := hdone

theorem get_none_of {l : Location} {seen : List (Location × TargetState)}
    {sources : List (RecordKey × SourceState)} (h : l ∉ seen.map Prod.fst) :
    (observations sources seen).targets[l]? = none := by
  have hfold : ∀ (xs : List (Location × TargetState))
      (m : Std.ExtTreeMap Location TargetState), m[l]? = none → l ∉ xs.map Prod.fst →
      (xs.foldl (fun m e => m.insert e.1 e.2) m)[l]? = none := by
    intro xs
    induction xs with
    | nil => intro m hm _; exact hm
    | cons x xs ih =>
      intro m hm hx
      simp only [List.map_cons,List.mem_cons,not_or] at hx
      apply ih _ _ hx.2
      rw [Std.ExtTreeMap.getElem?_insert,hm]
      simp [Std.LawfulEqCmp.compare_eq_iff_eq,Ne.symm hx.1]
  exact hfold seen ∅ (by simp) h

/-- A new mount is none of those attached before. -/
theorem fresh_of {input : PlanInput} {mounts : List (Location × Mount)}
    (h : ∀ e ∈ mounts, e.2.identity.mntId < 100) (i : ℕ) (d : DesiredMount) (l : Location) :
    (env input i).newMount d ∉ tableOf mounts l := by
  intro hm
  obtain ⟨e,he,heq⟩ := List.mem_map.mp hm
  have hlt := h e (List.mem_filter.mp he).1
  rw [heq] at hlt
  have hid : 100+i < 100 := hlt
  omega

theorem nodup_of {mounts : List (Location × Mount)} (h : (mounts.map Prod.snd).Nodup)
    (l : Location) : (tableOf mounts l).Nodup :=
  h.sublist (List.filter_sublist.map _)

/-- One member has left and a new one has come. -/
def input : PlanInput where
  desired := [desired group b "y"]
  state := state [record group a "x" 7 42]
  frozenGroups := ∅
  observations := observations [(⟨group,b⟩,.resolved (dir 43))]
    [(view "x",mounted 7 42),(view "y",.notMounted)]

theorem failureFree : FailureFree id (access [view "x",view "y"]) (fun _ => false) true input
    (env input) (world input [(view "x",mount 7 42)]) :=
  failureFree_of (by decide) (by decide +kernel) (fun _ h => get_none_of h) (by decide +kernel)
    (by decide +kernel)

def c : Name := ⟨"c".toList,by decide⟩

/-- A third member has its record where the mount is that the one who left owns, and a frozen group
has a mount. -/
def crowdedInput : PlanInput where
  desired := [desired group b "y",desired group c "x"]
  state := state [record group a "x" 7 42,record group c "x" 6 43,record frozenGroup a "z" 5 41]
  frozenGroups := {frozenGroup}
  observations := observations [(⟨group,b⟩,.resolved (dir 43)),(⟨group,c⟩,.resolved (dir 43))]
    [(view "x",mounted 7 42),(view "y",.notMounted)]

def crowd : List (Location × Mount) := [(view "x",mount 7 42),(view "z",mount 5 41)]

theorem crowded_failureFree : FailureFree id (access [view "x",view "y"]) (fun _ => false) true
    crowdedInput (env crowdedInput) (world crowdedInput crowd) :=
  failureFree_of (by decide) (by decide +kernel) (fun _ h => get_none_of h) (by decide +kernel)
    (by decide +kernel)

theorem new_unrecorded : crowdedInput.state.get (desired group b "y").key = none := by
  decide +kernel

theorem new_eligible : Eligible crowdedInput (desired group b "y") (dir 43) := by
  refine ⟨by decide +kernel,by decide +kernel,.inl (by decide +kernel),?_⟩
  intro r hr
  rw [new_unrecorded] at hr
  cases hr

theorem new_undisputed : Undisputed crowdedInput (desired group b "y") := by
  intro r hr
  have hg := (recordHere_iff.mp hr).1
  rw [new_unrecorded] at hg
  cases hg

theorem frozen_unshared :
    Unshared id true crowdedInput (tableOf crowd) (record frozenGroup a "z" 5 41) := by
  have hall : ∀ q ∈ crowdedInput.state.records, q.group ∉ crowdedInput.frozenGroups →
      q.targetLocation ≠ view "z" := by decide +kernel
  exact fun q hq hf hqt => absurd hqt (hall q hq hf)

/-- The new member ends mounted and the mount of the frozen group stays, whatever comes of the
third. -/
theorem failureFree_postcondition_run :
    EndsMounted id true (desired group b "y") (dir 43)
        (after (env crowdedInput) true crowdedInput (world crowdedInput crowd)) ∧
      (after (env crowdedInput) true crowdedInput (world crowdedInput crowd)).table (view "z") =
        [mount 5 41] := by
  have h := failureFree_postcondition crowded_failureFree (nodup_of (by decide))
    fun i d _ _ e => fresh_of (by decide) i d e
  refine ⟨h.mounted _ _ new_eligible new_undisputed,?_⟩
  exact h.frozenMounts (record frozenGroup a "z" 5 41) (by decide +kernel) (by decide)
    frozen_unshared (mount 5 41) ⟨by decide +kernel,by decide⟩

/-- The record of a departed member and that of a desired one name the same target,
whose mount the departed member owns. -/
def sharedInput : PlanInput where
  desired := [desired group b "x"]
  state := state [record group a "x" 7 42,record group b "x" 6 43]
  frozenGroups := ∅
  observations := observations [(⟨group,b⟩,.resolved (dir 43))] [(view "x",mounted 7 42)]

/-- A frozen record and that of a departed member describe the same mount. -/
def frozenInput : PlanInput where
  desired := []
  state := state [record group a "x" 7 42,record frozenGroup b "x" 7 42]
  frozenGroups := {frozenGroup}
  observations := observations [] [(view "x",mounted 7 42)]

def shared : List (Location × Mount) := [(view "x",mount 7 42)]

/-- An eligible member whose target is disputed is left unmounted by a failure-free pass, and a
frozen group loses the mount that its record shares. -/
theorem postcondition_fails :
    (FailureFree id (access [view "x"]) (fun _ => false) true sharedInput (env sharedInput)
        (world sharedInput shared) ∧
      Eligible sharedInput (desired group b "x") (dir 43) ∧
      ¬EndsMounted id true (desired group b "x") (dir 43)
        (after (env sharedInput) true sharedInput (world sharedInput shared))) ∧
    (FailureFree id (access [view "x"]) (fun _ => false) true frozenInput (env frozenInput)
        (world frozenInput shared) ∧
      Holds id true (tableOf shared) (record frozenGroup b "x" 7 42) (mount 7 42) ∧
      (after (env frozenInput) true frozenInput (world frozenInput shared)).table (view "x") = []) := by
  refine ⟨⟨?_,?_,?_⟩,?_,?_,?_⟩
  · exact failureFree_of (by decide) (by decide +kernel) (fun _ h => get_none_of h)
      (by decide +kernel) (by decide +kernel)
  · refine ⟨by decide +kernel,by decide +kernel,.inr (.inr ?_),?_⟩
    · exact ⟨record group a "x" 7 42,by decide +kernel,by decide +kernel,rfl,by decide +kernel⟩
    · intro r hr hm
      have hg : sharedInput.state.get (desired group b "x").key = some (record group b "x" 6 43) := by
        decide +kernel
      rw [hg] at hr
      cases hr
      exact absurd hm (by decide)
  · rintro ⟨r,m,hget,⟨htop,-⟩,-,ht,-⟩
    have hempty : (after (env sharedInput) true sharedInput (world sharedInput shared)).table
        (view "x") = [] := by decide +kernel
    rw [ht] at htop
    rw [show id (desired group b "x").target = view "x" from rfl,hempty] at htop
    cases htop
  · exact failureFree_of (by decide) (by decide +kernel) (fun _ h => get_none_of h)
      (by decide +kernel) (by decide +kernel)
  · exact ⟨by decide +kernel,by decide⟩
  · decide +kernel

end FailureFreeRun
end Byssus
