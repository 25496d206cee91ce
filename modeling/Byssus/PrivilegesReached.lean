import Byssus.Privileges
import Byssus.Library.Program

/-! The plan can be executed and reaches what it promises.
The operations are taken in the stages of the plan; each stage says which parts of the
process it changes.  Only a service user with an ID that the kernel does not take for one
cannot be switched to. -/
namespace Byssus.Privileges

variable {k : Kernel} {p : ProcessState}

theorem readSetLoop_eq {set : CapabilitySet} {ns : List (Fin 64)} (h : ns.Pairwise (· < ·))
    (bits : CapabilitySet) : readSetLoop (isInSet k set) ns bits =
      .ok (bits ∪ ns.toFinset.filter fun n => n ∈ set ∧ n ≤ k.lastCap) := by
  induction ns generalizing bits with
  | nil => simp [readSetLoop]
  | cons n ns ih =>
    obtain ⟨hlt,hrest⟩ := List.pairwise_cons.mp h
    by_cases hn : k.lastCap < n
    · -- none of the later capabilities is known either
      have hnone : ((n::ns).toFinset.filter fun n => n ∈ set ∧ n ≤ k.lastCap) = ∅ := by
        rw [Finset.filter_eq_empty_iff]
        intro m hm hset
        have hle : n ≤ m := by
          rcases List.mem_cons.mp (List.mem_toFinset.mp hm) with rfl | hm
          · exact le_refl _
          · exact (hlt m hm).le
        exact absurd hset.2 (not_le.mpr (hn.trans_le hle))
      have hpos : 0 < n := (Fin.zero_le k.lastCap).trans_lt hn
      rw [hnone,Finset.union_empty]
      simp [readSetLoop,isInSet,hn,hpos]
    · have hle : n ≤ k.lastCap := not_lt.mp hn
      by_cases hset : n ∈ set
      · simp only [readSetLoop,isInSet,if_neg hn,decide_eq_true hset,ih hrest]
        congr 1
        ext m
        simp only [Finset.mem_union,Finset.mem_insert,Finset.mem_filter,List.mem_toFinset,
          List.mem_cons]
        grind
      · simp only [readSetLoop,isInSet,if_neg hn,decide_eq_false hset,ih hrest]
        congr 1
        ext m
        simp only [Finset.mem_union,Finset.mem_filter,List.mem_toFinset,List.mem_cons]
        grind

/-- The capabilities of a set that the kernel knows are read. -/
theorem readSet_eq (k : Kernel) (set : CapabilitySet) :
    readSet (isInSet k set) = .ok (set.filter (· ≤ k.lastCap)) := by
  unfold readSet
  rw [readSetLoop_eq (List.pairwise_lt_finRange 64)]
  congr 1
  ext n
  simp

/-- The state without the capabilities that the kernel does not know. -/
def ProcessState.known (k : Kernel) (p : ProcessState) : ProcessState := {p with
  capBounding := p.capBounding.filter (· ≤ k.lastCap)
  capAmbient := p.capAmbient.filter (· ≤ k.lastCap) }

theorem readSelf_eq (k : Kernel) (p : ProcessState) : readSelf k p = .ok (p.known k) := by
  simp only [readSelf,readSet_eq]
  rfl

theorem foldlM_dropBounding {ns : List (Fin 64)} (hcap : capSetpcap ∈ p.capEffective)
    (h : ∀ n ∈ ns, n ≤ k.lastCap) : ns.foldlM (dropBounding k) p =
      .ok {p with capBounding := p.capBounding \ ns.toFinset} := by
  induction ns generalizing p with
  | nil => simp [pure,Except.pure]
  | cons n ns ih =>
    have hstep : dropBounding k p n = .ok {p with capBounding := p.capBounding.erase n} := by
      have hn := not_lt.mpr (h n (by simp))
      simp [dropBounding,hcap,hn]
    rw [List.foldlM_cons,hstep]
    have hrest := ih (p := {p with capBounding := p.capBounding.erase n}) hcap
      fun m hm => h m (by simp [hm])
    refine hrest.trans ?_
    have hset : p.capBounding.erase n \ ns.toFinset = p.capBounding \ (n::ns).toFinset := by
      ext m
      simp only [Finset.mem_sdiff,Finset.mem_erase,List.mem_toFinset,List.mem_cons]
      grind
    rw [hset]

/-- What is left of the bounding set is kept, or unknown to the kernel. -/
theorem dropBoundingExcept_ok (hcap : capSetpcap ∈ p.capEffective) (keep : CapabilitySet) :
    ∃ bounding, dropBoundingExcept k keep p = .ok {p with capBounding := bounding} ∧
      bounding.filter (· ≤ k.lastCap) ⊆ keep := by
  have hknown : ∀ n ∈ (List.finRange 64).filter
      (· ∈ p.capBounding.filter (· ≤ k.lastCap) \ keep), n ≤ k.lastCap := by
    intro n hn
    simp only [List.mem_filter,decide_eq_true_eq,Finset.mem_sdiff,Finset.mem_filter] at hn
    exact hn.2.1.2
  refine ⟨p.capBounding \ ((List.finRange 64).filter
    (· ∈ p.capBounding.filter (· ≤ k.lastCap) \ keep)).toFinset,?_,?_⟩
  · unfold dropBoundingExcept
    rw [readSet_eq]
    exact foldlM_dropBounding hcap hknown
  · intro n hn
    simp only [Finset.mem_filter,Finset.mem_sdiff,List.mem_toFinset,List.mem_filter,
      List.mem_finRange,true_and,decide_eq_true_eq,not_and,not_not] at hn
    exact hn.1.2 ⟨hn.1.1,hn.2⟩

theorem applyOps_cons {op : Op} {ops : List Op} {q : ProcessState} (h : applyOp k p op = .ok q) :
    applyOps k p (op::ops) = applyOps k q ops := by
  unfold applyOps
  rw [List.foldlM_cons,h]
  rfl

theorem applyOps_error {op : Op} {ops : List Op} {e : Errno} (h : applyOp k p op = .error e) :
    applyOps k p (op::ops) = .error (.op op e) := by
  unfold applyOps
  rw [List.foldlM_cons,h]
  rfl

theorem applyOps_append_error {ops ops' : List Op} {e : ApplyError}
    (h : applyOps k p ops = .error e) : applyOps k p (ops++ops') = .error e := by
  unfold applyOps at h ⊢
  rw [List.foldlM_append,h]
  rfl

theorem applyOps_append {ops ops' : List Op} {q : ProcessState}
    (h : applyOps k p ops = .ok q) : applyOps k p (ops++ops') = applyOps k q ops' := by
  unfold applyOps at h ⊢
  rw [List.foldlM_append,h]
  rfl

/-- Fewer capabilities can always be set when none is inheritable. -/
theorem capset_ok {sets : CapabilitySets} (hp : sets.permitted ⊆ p.capPermitted)
    (he : sets.effective ⊆ sets.permitted) (hi : sets.inheritable = ∅) :
    capset sets p = .ok {p with
      capEffective := sets.effective
      capPermitted := sets.permitted
      capInheritable := ∅
      capAmbient := ∅ } := by
  simp [capset,hp,he,hi]

/-! ### The stages -/

theorem raiseOps_ok {needed : CapabilitySet} (hsub : p.capEffective ⊆ p.capPermitted)
    (hneeded : needed ⊆ p.capPermitted) (hambient : p.capAmbient = ∅) :
    ∃ effective inheritable,
      applyOps k p (raiseOps ⟨p.capEffective,p.capPermitted,p.capInheritable⟩ needed) =
        .ok {p with capEffective := effective, capInheritable := inheritable} ∧
      needed ⊆ effective := by
  by_cases h : needed ⊆ p.capEffective
  · exact ⟨p.capEffective,p.capInheritable,by simp only [raiseOps,if_pos h]; rfl,h⟩
  · refine ⟨p.capEffective ∪ needed,∅,?_,Finset.subset_union_right⟩
    have hset : applyOp k p (.setCaps ⟨p.capEffective ∪ needed,p.capPermitted,∅⟩) = .ok _ :=
      capset_ok (Finset.Subset.refl _) (Finset.union_subset hsub hneeded) rfl
    simp only [raiseOps,if_neg h]
    rw [applyOps_cons hset]
    simp only [hambient]
    rfl

/-- What the operations with `CAP_SETPCAP` leave. -/
structure Locked (k : Kernel) (p : ProcessState) (keep bounding : CapabilitySet)
    (bits : SecureBits) : Prop where
  bounded : capSetpcap ∈ p.capPermitted → bounding.filter (· ≤ k.lastCap) ⊆ keep
  locked : capSetpcap ∈ p.capPermitted → bits = p.secureBits ∪ lockedSecureBits
  unlocked : capSetpcap ∉ p.capPermitted → bits = p.secureBits

theorem lockOps_ok (keep : CapabilitySet)
    (hcap : capSetpcap ∈ p.capPermitted → capSetpcap ∈ p.capEffective)
    (hlocks : ∀ f, SecureBit.lock f ∉ p.secureBits) :
    ∃ bounding bits, applyOps k p (lockOps p.capPermitted keep) =
        .ok {p with capBounding := bounding, secureBits := bits} ∧
      Locked k p keep bounding bits := by
  unfold lockOps
  by_cases h : capSetpcap ∈ p.capPermitted
  · simp only [if_pos h]
    obtain ⟨bounding,hdrop,hkeep⟩ := dropBoundingExcept_ok (k := k) (hcap h) keep
    refine ⟨bounding,p.secureBits ∪ lockedSecureBits,?_,fun _ => hkeep,fun _ => rfl,
      fun hno => absurd h hno⟩
    have hbounding : applyOp k p (.dropBoundingExcept keep) = .ok _ := hdrop
    have hbits : applyOp k {p with capBounding := bounding} (.setSecureBits lockedSecureBits) =
        .ok {p with capBounding := bounding, secureBits := p.secureBits ∪ lockedSecureBits} := by
      simp [applyOp,prctlSecureBits,hlocks,hcap h]
    rw [applyOps_cons hbounding,applyOps_cons hbits]
    rfl
  · simp only [if_neg h]
    exact ⟨p.capBounding,p.secureBits,rfl,fun hcap => absurd hcap h,fun hcap => absurd hcap h,
      fun _ => rfl⟩

/-- The permitted capabilities survive the UID change by either mechanism. -/
theorem fixSetuid_permitted {old : Ids}
    (h : .flag .noSetuidFixup ∈ p.secureBits ∨ .flag .keepCaps ∈ p.secureBits)
    (hambient : p.capAmbient = ∅) :
    ∃ effective, fixSetuid old p = {p with capEffective := effective} := by
  unfold fixSetuid
  by_cases hfix : .flag .noSetuidFixup ∈ p.secureBits
  · exact ⟨p.capEffective,if_pos hfix⟩
  · have hkeep : .flag .keepCaps ∈ p.secureBits := h.resolve_left hfix
    have hp : (if dropsRoot old p.uids then {p with capAmbient := ∅} else p) = p := by
      split_ifs
      · rw [← hambient]
      · rfl
    simp only [if_neg hfix,if_pos hkeep,hp]
    split_ifs
    · exact ⟨_,rfl⟩
    · exact ⟨_,rfl⟩
    · exact ⟨p.capEffective,rfl⟩

/-- How the switch keeps the capabilities: by the locked securebits, or by `KEEPCAPS`. -/
def SwitchReady (p : ProcessState) : Prop :=
  if capSetpcap ∈ p.capPermitted then .flag .noSetuidFixup ∈ p.secureBits
  else .lock .keepCaps ∉ p.secureBits

/-- The kernel takes the user's groups. -/
def ServiceUser.GroupsValid (user : ServiceUser) : Prop :=
  user.finalGroups.groups.length ≤ ngroupsMax ∧ noChange ∉ user.finalGroups.groups

/-- The kernel takes all of the user's IDs. -/
def ServiceUser.Settable (user : ServiceUser) : Prop := user.uid ≠ noChange ∧ user.GroupsValid

theorem ServiceUser.gid_mem (user : ServiceUser) :
    user.finalGroups.gid ∈ user.finalGroups.groups := by
  unfold finalGroups
  split_ifs with h
  · exact h
  · exact List.mem_cons_self

theorem ServiceUser.length_finalGroups {user : ServiceUser} (h : user.gid ∉ user.groups) :
    user.finalGroups.groups.length = user.groups.length+1 := by
  rw [finalGroups,if_neg h,List.length_cons]

theorem setGroups_ok {user : ServiceUser} (hgid : capSetgid ∈ p.capEffective)
    (h : user.GroupsValid) : applyOp k p (.setGroups user.finalGroups.groups) =
      .ok {p with groups := user.finalGroups.groups.insertionSort (· ≤ ·)} := by
  obtain ⟨hlength,hno⟩ := h
  simp [applyOp,setgroups,hgid,hno,not_lt.mpr hlength]

theorem setGroups_error {user : ServiceUser} (h : ¬user.GroupsValid) :
    ∃ e, applyOp k p (.setGroups user.finalGroups.groups) = .error e := by
  have hbad : ngroupsMax < user.finalGroups.groups.length ∨ noChange ∈ user.finalGroups.groups := by
    rw [ServiceUser.GroupsValid,not_and_or,not_le,not_not] at h
    exact h
  simp only [applyOp,setgroups,if_pos hbad]
  split_ifs
  · exact ⟨_,rfl⟩
  · exact ⟨_,rfl⟩

/-- Groups and IDs of the user are set while the capabilities for it are effective. -/
theorem switchIds_ok (user : ServiceUser) (hgid : capSetgid ∈ p.capEffective)
    (huid : capSetuid ∈ p.capEffective) (hambient : p.capAmbient = ∅)
    (h : .flag .noSetuidFixup ∈ p.secureBits ∨ .flag .keepCaps ∈ p.secureBits)
    (hvalid : user.GroupsValid) :
    ∃ effective, applyOps k p [.setGroups user.finalGroups.groups,
        .setResGid user.finalGroups.gid,.setResUid user.uid] = .ok {p with
      uids := p.uids.set user.uid
      gids := p.gids.set user.finalGroups.gid
      groups := user.finalGroups.groups.insertionSort (· ≤ ·)
      capEffective := effective } := by
  let q : ProcessState := {p with
    gids := p.gids.set user.finalGroups.gid
    groups := user.finalGroups.groups.insertionSort (· ≤ ·)
    uids := p.uids.set user.uid }
  obtain ⟨effective,hfix⟩ : ∃ effective, fixSetuid p.uids q = {q with capEffective := effective} :=
    fixSetuid_permitted h hambient
  have hresgid : applyOp k {p with groups := user.finalGroups.groups.insertionSort (· ≤ ·)}
      (.setResGid user.finalGroups.gid) = .ok {p with
        gids := p.gids.set user.finalGroups.gid
        groups := user.finalGroups.groups.insertionSort (· ≤ ·) } := by
    simp [applyOp,setresgid,hgid]
  have hresuid : applyOp k {p with
      gids := p.gids.set user.finalGroups.gid
      groups := user.finalGroups.groups.insertionSort (· ≤ ·) }
      (.setResUid user.uid) = .ok (fixSetuid p.uids q) := by
    simp [applyOp,setresuid,huid,q]
  refine ⟨effective,?_⟩
  rw [applyOps_cons (setGroups_ok hgid hvalid),applyOps_cons hresgid,applyOps_cons hresuid,hfix]
  rfl

theorem setKeepCaps_ok (h : .lock .keepCaps ∉ p.secureBits) : applyOp k p (.setKeepCaps true) =
    .ok {p with secureBits := insert (.flag .keepCaps) p.secureBits} := by
  simp [applyOp,prctlKeepCaps,h]

theorem switchOps_ok (user : ServiceUser) (hgid : capSetgid ∈ p.capEffective)
    (huid : capSetuid ∈ p.capEffective) (hambient : p.capAmbient = ∅) (h : SwitchReady p)
    (hvalid : user.GroupsValid) :
    ∃ effective bits, applyOps k p (switchOps p.capPermitted (some user)) = .ok {p with
      uids := p.uids.set user.uid
      gids := p.gids.set user.finalGroups.gid
      groups := user.finalGroups.groups.insertionSort (· ≤ ·)
      capEffective := effective
      secureBits := bits } ∧ (capSetpcap ∈ p.capPermitted → bits = p.secureBits) := by
  unfold switchOps SwitchReady at *
  by_cases hcap : capSetpcap ∈ p.capPermitted
  · simp only [if_pos hcap] at h ⊢
    obtain ⟨effective,hids⟩ := switchIds_ok (k := k) user hgid huid hambient (.inl h) hvalid
    refine ⟨effective,p.secureBits,?_,fun _ => rfl⟩
    simpa using hids
  · simp only [if_neg hcap] at h ⊢
    let q : ProcessState := {p with secureBits := insert (.flag .keepCaps) p.secureBits}
    obtain ⟨effective,hids⟩ := switchIds_ok (k := k) (p := q) user hgid huid hambient
      (.inr (Finset.mem_insert_self _ _)) hvalid
    refine ⟨effective,q.secureBits.erase (.flag .keepCaps),?_,fun hc => absurd hc hcap⟩
    rw [List.append_assoc,List.singleton_append,applyOps_cons (setKeepCaps_ok h),
      applyOps_append hids]
    have hclear : .lock .keepCaps ∉ q.secureBits := by simp [q,h]
    simp [applyOps,applyOp,prctlKeepCaps,hclear,Except.mapError,q]

/-- Nothing is switched to with groups that the kernel refuses. -/
theorem switchOps_error {user : ServiceUser} (h : SwitchReady p) (hvalid : ¬user.GroupsValid) :
    ∃ e, applyOps k p (switchOps p.capPermitted (some user)) = .error e := by
  unfold switchOps SwitchReady at *
  by_cases hcap : capSetpcap ∈ p.capPermitted
  · simp only [if_pos hcap,List.nil_append]
    obtain ⟨e,he⟩ := setGroups_error (k := k) (p := p) hvalid
    exact ⟨_,applyOps_error he⟩
  · simp only [if_neg hcap] at h ⊢
    rw [List.append_assoc,List.singleton_append,applyOps_cons (setKeepCaps_ok h)]
    obtain ⟨e,he⟩ := setGroups_error (k := k)
      (p := {p with secureBits := insert (.flag .keepCaps) p.secureBits}) hvalid
    exact ⟨_,applyOps_error he⟩

/-- A switch is planned away from root only, to the user of the request. -/
theorem switchTo_ok {current : Credentials} {request : Request} {user : Option ServiceUser}
    {warnings : List Warning} (h : switchTo current request = .ok (user,warnings)) :
    user = if current.anyUidIsRoot then request.user else none := by
  unfold switchTo at h
  cases hroot : current.anyUidIsRoot <;> cases huser : request.user <;> rw [hroot,huser] at h <;>
    simp only at h
  · cases h
    rfl
  · cases h
    rfl
  · split_ifs at h <;> cases h <;> rfl
  · split_ifs at h
    cases h
    rfl

/-- What an accepted request is planned as. -/
theorem plan_ok {current : Credentials} {request : Request} {planned : PrivilegePlan}
    (h : plan current request = .ok planned) :
    ∃ user : Option ServiceUser,
      planned.ops = .clearAmbient::(raiseOps current.caps (neededCaps current.caps.permitted user)++
        (lockOps current.caps.permitted planned.finalCaps++
          (switchOps current.caps.permitted user++
            [.setCaps ⟨planned.finalCaps,planned.finalCaps,∅⟩,.setNoNewPrivs]))) ∧
      planned.finalUid = (user.map ServiceUser.uid).getD current.uids.effective ∧
      planned.finalGroups = user.map ServiceUser.finalGroups ∧
      planned.finalCaps ⊆ current.caps.permitted ∧
      (user.isSome → capSetuid ∈ current.caps.permitted ∧ capSetgid ∈ current.caps.permitted) ∧
      user = if current.anyUidIsRoot then request.user else none := by
  unfold plan at h
  dsimp only at h
  split at h
  · cases h
  · rename_i hadmin
    split at h
    · cases h
    · rename_i user warnings hswitch
      split at h
      · cases h
      · rename_i hmissing
        cases h
        refine ⟨user,by simp,rfl,rfl,?_,?_,switchTo_ok hswitch⟩
        · cases hg : request.goal with
          | keepSysAdmin =>
            simp only [hg,true_and,not_not] at hadmin
            simpa [Goal.keep] using hadmin
          | dropAll => exact Finset.empty_subset _
        · intro hsome
          obtain ⟨u,rfl⟩ := Option.isSome_iff_exists.mp hsome
          simpa [missingForSwitch] using hmissing

/-- What the kernel must report when the plan has been executed. -/
structure Reached (planned : PrivilegePlan) (status : ProcessState) : Prop where
  effective : status.capEffective = planned.finalCaps
  permitted : status.capPermitted = planned.finalCaps
  inheritable : status.capInheritable = ∅
  ambient : status.capAmbient = ∅
  uids : status.uids = .all planned.finalUid
  groups : ∀ g, planned.finalGroups = some g →
    status.gids = .all g.gid ∧ sorted status.groups = sorted g.groups
  noNewPrivs : status.noNewPrivs = true

theorem sorted_insertionSort (groups : List UInt32) :
    sorted (groups.insertionSort (· ≤ ·)) = sorted groups := by
  unfold sorted
  rw [(List.pairwise_insertionSort (· ≤ ·) groups).insertionSort_eq]

theorem verify_ok {planned : PrivilegePlan} {status : ProcessState} (h : Reached planned status)
    (hbits : ∀ bits, .setSecureBits bits ∈ planned.ops → bits ⊆ status.secureBits)
    (hbounding : planned.ops.any Op.dropsBounding → status.capBounding ⊆ planned.finalCaps) :
    verify planned status = .ok () := by
  have hgroups : groupProblems status planned.finalGroups = [] := by
    cases hg : planned.finalGroups with
    | none => rfl
    | some g =>
      obtain ⟨hgid,hsorted⟩ := h.groups g hg
      simp [groupProblems,hgid,hsorted,Ids.toList,Ids.all]
  have hsecure : planned.ops.flatMap (secureBitsProblem status) = [] := by
    rw [List.flatMap_eq_nil_iff]
    intro op hop
    cases op with
    | setSecureBits bits => simp [secureBitsProblem,hbits bits hop]
    | _ => rfl
  apply if_pos
  simp only [problems,hgroups,hsecure,h.effective,h.permitted,h.inheritable,h.ambient,h.uids,
    h.noNewPrivs]
  simp [capsProblem,Ids.toList,Ids.all]
  simpa using hbounding

theorem neededCaps_subset {permitted : CapabilitySet} {user : Option ServiceUser}
    (h : user.isSome → capSetuid ∈ permitted ∧ capSetgid ∈ permitted) :
    neededCaps permitted user ⊆ permitted := by
  unfold neededCaps
  apply Finset.union_subset
  · split_ifs with hcap
    · exact Finset.singleton_subset_iff.mpr hcap
    · exact Finset.empty_subset _
  · split_ifs with huser
    · exact Finset.insert_subset (h huser).1 (Finset.singleton_subset_iff.mpr (h huser).2)
    · exact Finset.empty_subset _

theorem mem_neededCaps {permitted effective : CapabilitySet} {user : Option ServiceUser}
    (h : neededCaps permitted user ⊆ effective) :
    (capSetpcap ∈ permitted → capSetpcap ∈ effective) ∧
      (user.isSome → capSetuid ∈ effective ∧ capSetgid ∈ effective) := by
  refine ⟨fun hcap => h ?_,fun huser => ⟨h ?_,h ?_⟩⟩
  · simp [neededCaps,hcap]
  · simp [neededCaps,huser]
  · simp [neededCaps,huser]

/-- The user switch, where there is one: what is permitted and locked stays. -/
theorem optionalSwitch_ok {user : Option ServiceUser}
    (hcaps : user.isSome → capSetuid ∈ p.capEffective ∧ capSetgid ∈ p.capEffective)
    (hambient : p.capAmbient = ∅) (h : SwitchReady p)
    (hvalid : ∀ u, user = some u → u.GroupsValid) :
    ∃ q, applyOps k p (switchOps p.capPermitted user) = .ok q ∧
      q.capPermitted = p.capPermitted ∧ q.capBounding = p.capBounding ∧
      q.uids = ((user.map ServiceUser.uid).map p.uids.set).getD p.uids ∧
      (capSetpcap ∈ p.capPermitted → q.secureBits = p.secureBits) ∧
      ∀ g, user.map ServiceUser.finalGroups = some g →
        q.gids = .all g.gid ∧ sorted q.groups = sorted g.groups := by
  cases user with
  | none => exact ⟨p,rfl,rfl,rfl,rfl,fun _ => rfl,by simp⟩
  | some user =>
    obtain ⟨hsetuid,hsetgid⟩ := hcaps rfl
    have hgroups := hvalid user rfl
    obtain ⟨effective,bits,hops,hbits⟩ :=
      switchOps_ok (k := k) user hsetgid hsetuid hambient h hgroups
    refine ⟨_,hops,rfl,rfl,rfl,hbits,?_⟩
    rintro g ⟨⟩
    have hgid : user.finalGroups.gid ≠ noChange := fun heq => hgroups.2 (heq ▸ user.gid_mem)
    exact ⟨if_neg hgid,sorted_insertionSort _⟩

/-- Securebits and bounding set are touched by the operations with `CAP_SETPCAP` only. -/
theorem locking_ops {current : Credentials} {keep : CapabilitySet} {user : Option ServiceUser}
    {op : Op} (hop : op ∈ .clearAmbient::
      (raiseOps current.caps (neededCaps current.caps.permitted user)++
        (lockOps current.caps.permitted keep++(switchOps current.caps.permitted user++
          [.setCaps ⟨keep,keep,∅⟩,.setNoNewPrivs])))) :
    (∀ bits, op = .setSecureBits bits →
      capSetpcap ∈ current.caps.permitted ∧ bits = lockedSecureBits) ∧
    (op.dropsBounding = true → capSetpcap ∈ current.caps.permitted) := by
  have hraise : ∀ op ∈ raiseOps current.caps (neededCaps current.caps.permitted user),
      ∃ sets, op = .setCaps sets := by
    intro op hop
    unfold raiseOps at hop
    split_ifs at hop
    · cases hop
    · exact ⟨_,List.mem_singleton.mp hop⟩
  have hswitch : ∀ op ∈ switchOps current.caps.permitted user,
      (∀ bits, op ≠ .setSecureBits bits) ∧ op.dropsBounding = false := by
    intro op hop
    cases user with
    | none => cases hop
    | some user =>
      by_cases hcap : capSetpcap ∈ current.caps.permitted
      · simp only [switchOps,if_pos hcap,List.nil_append,List.append_nil,List.mem_cons,
          List.not_mem_nil,or_false] at hop
        rcases hop with rfl | rfl | rfl <;> simp [Op.dropsBounding]
      · simp only [switchOps,if_neg hcap,List.cons_append,List.nil_append,List.mem_cons,
          List.not_mem_nil,or_false] at hop
        rcases hop with rfl | rfl | rfl | rfl | rfl <;> simp [Op.dropsBounding]
  simp only [List.mem_cons,List.mem_append,List.not_mem_nil,or_false] at hop
  rcases hop with rfl | hop | hop | hop | rfl | rfl
  · simp [Op.dropsBounding]
  · obtain ⟨sets,rfl⟩ := hraise op hop
    simp [Op.dropsBounding]
  · unfold lockOps at hop
    split_ifs at hop with hcap
    · simp only [List.mem_cons,List.not_mem_nil,or_false] at hop
      rcases hop with rfl | rfl <;> simp [Op.dropsBounding,hcap,eq_comm]
    · cases hop
  · obtain ⟨hbits,hdrop⟩ := hswitch op hop
    exact ⟨fun bits h => absurd h (hbits bits),fun h => by rw [hdrop] at h; cases h⟩
  · simp [Op.dropsBounding]
  · simp [Op.dropsBounding]

/-- What the operations before the switch leave. -/
structure Prepared (k : Kernel) (p : ProcessState) (planned : PrivilegePlan)
    (user : Option ServiceUser) (q : ProcessState) : Prop where
  permitted : q.capPermitted = p.capPermitted
  ambient : q.capAmbient = ∅
  uids : q.uids = p.uids
  ready : SwitchReady q
  caps : user.isSome → capSetuid ∈ q.capEffective ∧ capSetgid ∈ q.capEffective
  locked : Locked k p planned.finalCaps q.capBounding q.secureBits
  run : applyOps k p planned.ops = applyOps k q (switchOps q.capPermitted user++
    [.setCaps ⟨planned.finalCaps,planned.finalCaps,∅⟩,.setNoNewPrivs])

theorem prepare_ok (k : Kernel) {planned : PrivilegePlan} {user : Option ServiceUser}
    (hsub : p.capEffective ⊆ p.capPermitted) (hlocks : ∀ f, SecureBit.lock f ∉ p.secureBits)
    (hneeds : user.isSome → capSetuid ∈ p.capPermitted ∧ capSetgid ∈ p.capPermitted)
    (hops : planned.ops = .clearAmbient::
      (raiseOps p.credentials.caps (neededCaps p.capPermitted user)++
        (lockOps p.capPermitted planned.finalCaps++(switchOps p.capPermitted user++
          [.setCaps ⟨planned.finalCaps,planned.finalCaps,∅⟩,.setNoNewPrivs])))) :
    ∃ q, Prepared k p planned user q := by
  let p₁ : ProcessState := {p with capAmbient := ∅}
  have hclear : applyOp k p .clearAmbient = .ok p₁ := rfl
  obtain ⟨effective,inheritable,hraise,hneeded⟩ := raiseOps_ok (k := k) (p := p₁) hsub
    (neededCaps_subset hneeds) rfl
  obtain ⟨hsetpcap,hcaps⟩ := mem_neededCaps hneeded
  let p₂ : ProcessState := {p₁ with capEffective := effective, capInheritable := inheritable}
  obtain ⟨bounding,bits,hlock,hlocked⟩ := lockOps_ok (k := k) (p := p₂) planned.finalCaps
    hsetpcap hlocks
  refine ⟨{p₂ with capBounding := bounding, secureBits := bits},rfl,rfl,rfl,?_,hcaps,
    ⟨hlocked.bounded,hlocked.locked,hlocked.unlocked⟩,?_⟩
  · by_cases hcap : capSetpcap ∈ p.capPermitted
    · have hbits : bits = p.secureBits ∪ lockedSecureBits := hlocked.locked hcap
      refine (if_pos hcap).mpr ?_
      simp only [hbits]
      exact Finset.mem_union_right _ (by decide)
    · have hbits : bits = p.secureBits := hlocked.unlocked hcap
      refine (if_neg hcap).mpr ?_
      simp only [hbits]
      exact hlocks .keepCaps
  · rw [hops,applyOps_cons hclear]
    refine (applyOps_append hraise).trans ?_
    exact applyOps_append hlock

/-- The switched state, once its capabilities are dropped. -/
def settled (q : ProcessState) (keep : CapabilitySet) : ProcessState := {q with
  capEffective := keep
  capPermitted := keep
  capInheritable := ∅
  capAmbient := ∅
  noNewPrivs := true }

theorem Prepared.switch_ok {planned : PrivilegePlan} {user : Option ServiceUser}
    {q : ProcessState} (h : Prepared k p planned user q) (hkeep : planned.finalCaps ⊆ p.capPermitted)
    (hvalid : ∀ u, user = some u → u.GroupsValid) :
    ∃ r, applyOps k p planned.ops = .ok (settled r planned.finalCaps) ∧
      r.capBounding = q.capBounding ∧
      r.uids = ((user.map ServiceUser.uid).map p.uids.set).getD p.uids ∧
      (capSetpcap ∈ p.capPermitted → r.secureBits = q.secureBits) ∧
      ∀ g, user.map ServiceUser.finalGroups = some g →
        r.gids = .all g.gid ∧ sorted r.groups = sorted g.groups := by
  obtain ⟨r,hswitch,hperm,hbound,huids,hbits,hgroups⟩ := optionalSwitch_ok (k := k) h.caps
    h.ambient h.ready hvalid
  have hset : applyOp k r (.setCaps ⟨planned.finalCaps,planned.finalCaps,∅⟩) = .ok _ :=
    capset_ok (hperm.trans h.permitted ▸ hkeep) (Finset.Subset.refl _) rfl
  refine ⟨r,?_,hbound,h.uids ▸ huids,h.permitted ▸ hbits,hgroups⟩
  rw [h.run,applyOps_append hswitch,applyOps_cons hset]
  rfl

/-- Every accepted request is planned so that the kernel executes every operation and the
result is the one that `verify` demands, if it can set the IDs of a user that is switched to. -/
theorem plan_reached (k : Kernel) {p : ProcessState} {request : Request} {planned : PrivilegePlan}
    (hsub : p.capEffective ⊆ p.capPermitted) (hlocks : ∀ f, SecureBit.lock f ∉ p.secureBits)
    (hplan : plan p.credentials request = .ok planned)
    (hids : p.credentials.anyUidIsRoot → ∀ user, request.user = some user → user.Settable)
    (huids : planned.finalGroups = none → p.uids = .all p.uids.effective) :
    ∃ final after, applyOps k p planned.ops = .ok final ∧ readSelf k final = .ok after ∧
      verify planned after = .ok () ∧ Reached planned after ∧
      (p.threads = 1 → apply k planned p = .ok after) := by
  obtain ⟨user,hops,huid,hgroups,hkeep,hneeds,huser⟩ := plan_ok hplan
  have hsettable : ∀ u, user = some u → u.Settable := by
    rintro u rfl
    split_ifs at huser with hroot
    exact hids hroot u huser.symm
  obtain ⟨q,hq⟩ := prepare_ok k hsub hlocks hneeds hops
  obtain ⟨r,hrun,hbound,hruids,hbits,hrgroups⟩ :=
    hq.switch_ok hkeep fun u hu => (hsettable u hu).2
  have hall : r.uids = .all planned.finalUid := by
    rw [hruids,huid]
    cases hu : user with
    | none => exact huids (by rw [hgroups,hu]; rfl)
    | some u => exact if_neg (hsettable u hu).1
  have hreached : Reached planned ((settled r planned.finalCaps).known k) :=
    ⟨rfl,rfl,rfl,Finset.filter_empty _,hall,fun g hg => hrgroups g (hgroups ▸ hg),rfl⟩
  have hlockedOps : ∀ op ∈ planned.ops, _ := fun op hop => locking_ops (hops ▸ hop)
  have hverify : verify planned ((settled r planned.finalCaps).known k) = .ok () := by
    apply verify_ok hreached
    · intro b hb
      obtain ⟨hcap,rfl⟩ := (hlockedOps _ hb).1 b rfl
      have hr : r.secureBits = p.secureBits ∪ lockedSecureBits :=
        (hbits hcap).trans (hq.locked.locked hcap)
      exact hr ▸ Finset.subset_union_right
    · intro hdrop
      obtain ⟨op,hop,hd⟩ := List.any_eq_true.mp hdrop
      show r.capBounding.filter (· ≤ k.lastCap) ⊆ _
      rw [hbound]
      exact hq.locked.bounded ((hlockedOps op hop).2 hd)
  refine ⟨_,_,hrun,readSelf_eq k _,hverify,hreached,?_⟩
  intro hthreads
  have hbefore : (p.known k).threads = 1 := hthreads
  simp only [apply,readSelf_eq,hrun,Except.mapError,hbefore,bind,Except.bind,ne_eq,
    not_true_eq_false,if_false,hverify]

/-- A user with an ID that the kernel cannot set is planned for, and never reached. -/
theorem plan_unsettable (k : Kernel) {request : Request} {planned : PrivilegePlan}
    {user : ServiceUser} (hsub : p.capEffective ⊆ p.capPermitted)
    (hlocks : ∀ f, SecureBit.lock f ∉ p.secureBits)
    (hplan : plan p.credentials request = .ok planned) (hroot : p.credentials.anyUidIsRoot)
    (huser : request.user = some user) (h : ¬user.Settable) {final after : ProcessState}
    (hrun : applyOps k p planned.ops = .ok final) (hread : readSelf k final = .ok after) :
    verify planned after ≠ .ok () := by
  obtain ⟨_,hops,huid,hgroups,hkeep,hneeds,rfl⟩ := plan_ok hplan
  rw [if_pos hroot,huser] at *
  obtain ⟨q,hq⟩ := prepare_ok k hsub hlocks hneeds hops
  by_cases hvalid : user.GroupsValid
  · -- the UID stands for no change, so one that is root is left
    have hno : user.uid = noChange := by
      by_contra hne
      exact h ⟨hne,hvalid⟩
    obtain ⟨r,hswitched,-,hruids,-⟩ := hq.switch_ok hkeep (by rintro u ⟨⟩; exact hvalid)
    rw [hswitched] at hrun
    cases hrun
    rw [readSelf_eq] at hread
    cases hread
    have huids : r.uids = p.uids := hruids.trans (if_pos hno)
    have hbad : ∃ u ∈ ((settled r planned.finalCaps).known k).uids.toList,
        u ≠ planned.finalUid := by
      refine ⟨0,?_,?_⟩
      · show 0 ∈ r.uids.toList
        rw [huids]
        exact List.contains_iff_mem.mp hroot
      · rw [huid]
        show 0 ≠ user.uid
        rw [hno]
        decide
    intro hok
    unfold verify at hok
    split_ifs at hok with hproblems
    simp only [problems,List.append_eq_nil_iff] at hproblems
    obtain ⟨⟨⟨⟨⟨⟨⟨⟨-,hproblems⟩,-⟩,-⟩,-⟩,-⟩,-⟩,-⟩,-⟩ := hproblems
    rw [if_pos] at hproblems
    · cases hproblems
    · simpa using hbad
  · obtain ⟨e,he⟩ := switchOps_error (k := k) hq.ready hvalid
    rw [hq.run,applyOps_append_error he] at hrun
    cases hrun

/-! ### A start as root without `CAP_SETPCAP`, for a service user -/
namespace SampleStart

theorem lastCap_lt : 40 < 64 := by decide

def kernel : Kernel := ⟨⟨40,lastCap_lt⟩⟩

def started : ProcessState where
  uids := .all 0
  gids := .all 0
  groups := [0]
  threads := 1
  capInheritable := {capSysAdmin}
  capPermitted := {capSetgid,capSetuid,capSysAdmin}
  capEffective := {capSetgid}
  capBounding := {capSetgid,capSetuid,capSysAdmin}
  capAmbient := {capSysAdmin}
  noNewPrivs := false
  secureBits := {.flag .noRoot}

def request (user : ServiceUser) : Request := ⟨.keepSysAdmin,some user,false⟩

def user : ServiceUser := ⟨"byssus",991,991,[5]⟩

theorem accepted (user : ServiceUser) (h : user.uid ≠ 0) :
    ∃ planned, plan started.credentials (request user) = .ok planned := by
  have hswitch : switchTo started.credentials (request user) = .ok (some user,[]) := if_neg h
  have hmissing : missingForSwitch started.credentials.caps.permitted = none := by decide +kernel
  have hadmin : ¬((request user).goal = .keepSysAdmin ∧
      capSysAdmin ∉ started.credentials.caps.permitted) := fun h => absurd h.2 (by decide)
  simp only [plan,if_neg hadmin,hswitch,Option.bind_some,hmissing,Option.map_none]
  exact ⟨_,rfl⟩

theorem started_locks (f : SecureFlag) : SecureBit.lock f ∉ started.secureBits := by
  cases f <;> decide

theorem plan_reached_run : ∃ planned final after,
    plan started.credentials (request user) = .ok planned ∧
    applyOps kernel started planned.ops = .ok final ∧ readSelf kernel final = .ok after ∧
    verify planned after = .ok () ∧ Reached planned after ∧
    apply kernel planned started = .ok after := by
  obtain ⟨planned,hplan⟩ := accepted user (by decide)
  have hsettable : started.credentials.anyUidIsRoot →
      ∀ u, (request user).user = some u → u.Settable := by
    rintro - u ⟨⟩
    exact ⟨by decide,by decide,by decide⟩
  obtain ⟨final,after,hrun,hread,hverify,hreached,happly⟩ := plan_reached kernel
    (p := started) (by decide) started_locks hplan hsettable (fun _ => rfl)
  exact ⟨planned,final,after,hplan,hrun,hread,hverify,hreached,happly rfl⟩

/-- A plan is accepted for the user, and whatever it ends in, `verify` refuses. -/
def Unreached (user : ServiceUser) : Prop :=
  ∃ planned, plan started.credentials (request user) = .ok planned ∧
    ∀ final after, applyOps kernel started planned.ops = .ok final →
      readSelf kernel final = .ok after → verify planned after ≠ .ok ()

theorem unreached {user : ServiceUser} (hroot : user.uid ≠ 0) (h : ¬user.Settable) :
    Unreached user := by
  obtain ⟨planned,hplan⟩ := accepted user hroot
  refine ⟨planned,hplan,fun final after hrun hread => ?_⟩
  exact plan_unsettable kernel (by decide) started_locks hplan rfl rfl h hrun hread

/-- The reserved ID as UID or GID, or too many groups. -/
theorem plan_not_reached : Unreached {user with uid := noChange} ∧
    Unreached {user with gid := noChange} ∧
    Unreached {user with groups := List.replicate ngroupsMax 5} := by
  refine ⟨unreached (by decide) fun h => h.1 rfl,unreached (by decide) fun h => h.2.2 ?_,
    unreached (by decide) fun h => ?_⟩
  · decide
  · have hno : user.gid ∉ List.replicate ngroupsMax 5 :=
      fun hm => absurd (List.eq_of_mem_replicate hm) (by decide)
    have hlength := h.2.1
    rw [ServiceUser.length_finalGroups hno,List.length_replicate] at hlength
    exact Nat.not_succ_le_self ngroupsMax hlength

end SampleStart
end Byssus.Privileges
