import Byssus.Observe
import Byssus.ScanSpec
import Byssus.PlanFrozen

/-! What a pass plans from, in terms of what the operating system answers:
which members are desired, which groups are frozen, what is seen at the targets. -/
namespace Byssus

open Std

variable {H : Type} {env : PassEnv H} {degraded : Finset GroupId}

/-! ### The groups -/

/-- The membership directory is gone or cannot be listed. -/
def PassEnv.Unobservable (env : PassEnv H) (g : GroupRuntime H) : Prop :=
  (env.isDeleted g.membershipDir).toOption.getD false = true ∨
    env.ListingFails g.membershipDir

theorem scanMembership_error_iff (dir : H) :
    (∃ e, scanMembership env.toScanEnv dir = .error e) ↔ env.ListingFails dir := by
  unfold scanMembership ScanEnv.ListingFails ScanEnv.listingError
  cases env.readDir dir with
  | error e => simp
  | ok listing =>
    obtain ⟨names,failed⟩ := listing
    cases failed <;> simp

/-- The member mounts that a group asks for. -/
def desiredOf (env : PassEnv H) (degraded : Finset GroupId) (entry : GroupId × GroupRuntime H) :
    List DesiredMount :=
  if entry.1 ∈ degraded then []
  else if (env.isDeleted entry.2.membershipDir).toOption.getD false then []
  else match scanMembership env.toScanEnv entry.2.membershipDir with
    | .error _ => []
    | .ok m => m.members.toList.filterMap fun n => (desiredMount entry.1 entry.2.config n).toOption

theorem desiredMount_key {id : GroupId} {config : GroupConfig} {n : Name} {d : DesiredMount}
    (h : desiredMount id config n = .ok d) : d.key = ⟨id,n⟩ := by
  unfold desiredMount at h
  split at h <;> cases h
  rfl

/-- The locations of a desired mount: the interpolated templates beneath the group's roots. -/
theorem desiredMount_ok {id : GroupId} {config : GroupConfig} {n : Name} {d : DesiredMount}
    (h : desiredMount id config n = .ok d) :
    config.source.interpolate n = .ok d.source.path ∧ d.source.root = config.sourceRoot ∧
      config.target.interpolate n = .ok d.target.path ∧ d.target.root = config.targetRoot := by
  unfold desiredMount interpolateFor at h
  cases hs : config.source.interpolate n with
  | error e =>
    rw [hs] at h
    cases h
  | ok source =>
    cases ht : config.target.interpolate n with
    | error e =>
      rw [hs,ht] at h
      cases h
    | ok target =>
      rw [hs,ht] at h
      cases h
      exact ⟨rfl,rfl,rfl,rfl⟩

theorem foldl_addMember (id : GroupId) (config : GroupConfig) (names : List Name) (out : Observed) :
    (names.foldl (Observed.addMember id config) out).frozen = out.frozen ∧
      (names.foldl (Observed.addMember id config) out).observations = out.observations ∧
      (names.foldl (Observed.addMember id config) out).desired =
        out.desired++names.filterMap fun n => (desiredMount id config n).toOption := by
  induction names generalizing out with
  | nil => simp
  | cons n names ih =>
    obtain ⟨hf,ho,hd⟩ := ih (out.addMember id config n)
    rw [List.foldl_cons,hf,ho,hd,List.filterMap_cons]
    unfold Observed.addMember
    cases desiredMount id config n with
    | ok d => exact ⟨rfl,rfl,List.append_assoc _ _ _⟩
    | error note => exact ⟨rfl,rfl,rfl⟩

theorem addMembership_spec (id : GroupId) (config : GroupConfig) (out : Observed)
    (m : Membership) :
    (out.addMembership id config m).frozen = out.frozen ∧
      (out.addMembership id config m).observations = out.observations ∧
      (out.addMembership id config m).desired =
        out.desired++m.members.toList.filterMap fun n => (desiredMount id config n).toOption := by
  unfold Observed.addMembership
  split
  · exact foldl_addMember id config m.members.toList
      {out with notes := out.notes++m.rejected.map (.rejected id)}
  · exact foldl_addMember id config m.members.toList
      {out with
        ignored := out.ignored.insert id m.ignored
        notes := out.notes++m.rejected.map (.rejected id)}

/-- One group: its members are desired, or it is frozen. -/
theorem addGroup_spec (env : PassEnv H) (degraded : Finset GroupId) (out : Observed)
    (entry : GroupId × GroupRuntime H) :
    (out.addGroup env degraded entry).observations = out.observations ∧
      (out.addGroup env degraded entry).desired = out.desired++desiredOf env degraded entry ∧
      ∀ id, id ∈ (out.addGroup env degraded entry).frozen ↔ id ∈ out.frozen ∨
        (id = entry.1 ∧ id ∉ degraded ∧ env.Unobservable entry.2) := by
  unfold Observed.addGroup desiredOf PassEnv.Unobservable
  by_cases hdeg : entry.1 ∈ degraded
  · have hno : ∀ id, id = entry.1 → id ∈ degraded := fun id h => h ▸ hdeg
    simp only [hdeg,if_true,List.append_nil,true_and]
    intro id
    have h := hno id
    tauto
  · have hno : ∀ id, id = entry.1 → id ∉ degraded := fun id h => h ▸ hdeg
    by_cases hdel : (env.isDeleted entry.2.membershipDir).toOption.getD false = true
    · simp only [hdeg,hdel,if_true,if_false,Observed.freeze,List.append_nil,true_and,
        Finset.mem_insert,true_or,and_true]
      intro id
      have h := hno id
      tauto
    · cases hs : scanMembership env.toScanEnv entry.2.membershipDir with
      | error e =>
        have hf := (scanMembership_error_iff entry.2.membershipDir).mp ⟨e,hs⟩
        simp only [hdeg,hdel,Bool.false_eq_true,if_false,hs,Observed.freeze,List.append_nil,
          true_and,Finset.mem_insert,hf,or_true,and_true]
        intro id
        have h := hno id
        tauto
      | ok m =>
        have hf : ¬env.ListingFails entry.2.membershipDir := by
          rw [← scanMembership_error_iff]
          simp [hs]
        obtain ⟨hfr,hob,hde⟩ := addMembership_spec entry.1 entry.2.config out m
        simp [hdeg,hdel,hs,hf,hfr,hob,hde]

variable {rt : Runtime H} {state : State}

theorem observe_spec (env : PassEnv H) (rt : Runtime H) (state : State)
    (degraded : Finset GroupId) :
    (observe env rt state degraded).desired = rt.groups.toList.flatMap (desiredOf env degraded) ∧
      ∀ id, id ∈ (observe env rt state degraded).frozen ↔ id ∈ degraded ∨
        ∃ g, rt.groups[id]? = some g ∧ env.Unobservable g := by
  have hfold : ∀ (entries : List (GroupId × GroupRuntime H)) (out : Observed),
      (entries.foldl (Observed.addGroup env degraded) out).desired =
          out.desired++entries.flatMap (desiredOf env degraded) ∧
        ∀ id, id ∈ (entries.foldl (Observed.addGroup env degraded) out).frozen ↔ id ∈ out.frozen ∨
          ∃ e ∈ entries, id = e.1 ∧ id ∉ degraded ∧ env.Unobservable e.2 := by
    intro entries
    induction entries with
    | nil => simp
    | cons entry entries ih =>
      intro out
      obtain ⟨-,hd,hf⟩ := addGroup_spec env degraded out entry
      obtain ⟨hds,hfs⟩ := ih (out.addGroup env degraded entry)
      refine ⟨?_,fun id => ?_⟩
      · rw [List.foldl_cons,hds,hd,List.flatMap_cons,List.append_assoc]
      · rw [List.foldl_cons,hfs,hf]
        simp only [List.exists_mem_cons_iff,or_assoc]
  obtain ⟨hd,hf⟩ := hfold rt.groups.toList ⟨[],⟨∅,∅⟩,degraded,∅,∅,∅,[]⟩
  refine ⟨hd,fun id => (hf id).trans ?_⟩
  simp only [Prod.exists,ExtTreeMap.mem_toList_iff_getElem?_eq_some]
  constructor
  · rintro (h | ⟨_,g,hg,rfl,-,hu⟩)
    · exact .inl h
    · exact .inr ⟨g,hg,hu⟩
  · rintro (h | ⟨g,hg,hu⟩)
    · exact .inl h
    · by_cases hid : id ∈ degraded
      · exact .inl hid
      · exact .inr ⟨id,g,hg,rfl,hid,hu⟩

theorem mem_desiredOf {entry : GroupId × GroupRuntime H} {d : DesiredMount} :
    d ∈ desiredOf env degraded entry ↔ entry.1 ∉ degraded ∧ ¬env.Unobservable entry.2 ∧
      ∃ m, scanMembership env.toScanEnv entry.2.membershipDir = .ok m ∧ ∃ n ∈ m.members,
        desiredMount entry.1 entry.2.config n = .ok d := by
  unfold desiredOf PassEnv.Unobservable
  by_cases hdeg : entry.1 ∈ degraded
  · simp [hdeg]
  · by_cases hdel : (env.isDeleted entry.2.membershipDir).toOption.getD false = true
    · simp [hdeg,hdel]
    · cases hs : scanMembership env.toScanEnv entry.2.membershipDir with
      | error e => simp [hdeg,hdel]
      | ok m =>
        have hf : ¬env.ListingFails entry.2.membershipDir := by
          rw [← scanMembership_error_iff]
          simp [hs]
        have hopt : ∀ n, (desiredMount entry.1 entry.2.config n).toOption = some d ↔
            desiredMount entry.1 entry.2.config n = .ok d := by
          intro n
          cases desiredMount entry.1 entry.2.config n <;> simp [Except.toOption]
        simp [hdeg,hdel,hf,List.mem_filterMap,hopt]

theorem desiredOf_keys_nodup (entry : GroupId × GroupRuntime H) :
    ((desiredOf env degraded entry).map DesiredMount.key).Nodup := by
  unfold desiredOf
  split_ifs
  · simp
  · simp
  · split
    · simp
    · rename_i m _
      have hn : m.members.toList.Pairwise fun a b => a ≠ b := by
        refine m.members.distinct_toList.imp ?_
        intro a b hab he
        exact hab (by simp [he])
      rw [List.Nodup,List.pairwise_map,List.pairwise_filterMap]
      refine hn.imp ?_
      intro a b hab d hd d' hd' hkey
      have ha : d.key = ⟨entry.1,a⟩ := desiredMount_key (by
        cases h : desiredMount entry.1 entry.2.config a <;> simp_all [Except.toOption])
      have hb : d'.key = ⟨entry.1,b⟩ := desiredMount_key (by
        cases h : desiredMount entry.1 entry.2.config b <;> simp_all [Except.toOption])
      rw [ha,hb] at hkey
      cases hkey
      exact hab rfl

/-- No member is desired twice. -/
theorem observe_keys_nodup (env : PassEnv H) (rt : Runtime H) (state : State)
    (degraded : Finset GroupId) :
    ((observe env rt state degraded).desired.map DesiredMount.key).Nodup := by
  rw [(observe_spec env rt state degraded).1,List.map_flatMap,List.Nodup,List.pairwise_flatMap]
  refine ⟨fun entry _ => desiredOf_keys_nodup entry,?_⟩
  refine rt.groups.distinct_keys_toList.imp ?_
  intro e e' hne k hk k' hk' hkk
  subst hkk
  have hgroup : ∀ e : GroupId × GroupRuntime H,
      k ∈ (desiredOf env degraded e).map DesiredMount.key → k.group = e.1 := by
    intro e hk
    obtain ⟨d,hd,rfl⟩ := List.mem_map.mp hk
    obtain ⟨-,-,m,-,n,-,hn⟩ := mem_desiredOf.mp hd
    rw [desiredMount_key hn]
  apply hne
  rw [← hgroup e hk,hgroup e' hk']
  exact ReflCmp.compare_self

/-! ### The input of the planner -/

namespace PassEnv

variable (env)

/-- A directory that a pass takes as the group `id`. -/
def Present (runtime : Runtime H) (degraded : Degraded) (id : GroupId) (g : GroupRuntime H) :
    Prop :=
  (id.set = none ∧ runtime.groups[id]? = some g) ∨
    (env.Discovered runtime degraded.sets g ∧ g.config.name = id)

/-- Left untouched before it is looked at: degraded, or with records and in a set that
cannot be scanned or beneath a directory that cannot be read. -/
def FrozenBefore (runtime : Runtime H) (state : State) (degraded : Degraded) (id : GroupId) :
    Prop :=
  id ∈ degraded.groups ∨ env.Unavailable runtime degraded.sets id ∨
    ∃ r ∈ state.records, r.group = id ∧
      ((∃ s, id.set = some s ∧ (s ∈ degraded.sets ∨ ∃ set, runtime.sets[s]? = some set ∧
          s ∉ degraded.sets ∧ ¬env.Scannable set)) ∨
        ∃ pre, env.Unavailable runtime degraded.sets pre ∧ id.startsWith pre = true)

def Frozen (runtime : Runtime H) (state : State) (degraded : Degraded) (id : GroupId) : Prop :=
  env.FrozenBefore runtime state degraded id ∨
    ∃ g, env.Present runtime degraded id g ∧ env.Unobservable g

/-- A member of a group that is present, not frozen, and could be listed. -/
def Wanted (runtime : Runtime H) (state : State) (degraded : Degraded) (d : DesiredMount) : Prop :=
  ¬env.Frozen runtime state degraded d.key.group ∧
    ∃ g m, env.Present runtime degraded d.key.group g ∧
      scanMembership env.toScanEnv g.membershipDir = .ok m ∧ d.key.name ∈ m.members ∧
      desiredMount d.key.group g.config d.key.name = .ok d

end PassEnv

variable {runtime : Runtime H} {deg : Degraded}

theorem discover_present {id : GroupId} {g : GroupRuntime H} :
    (runtime.discover env.toScanEnv deg.sets).1.groups[id]? = some g ↔
      env.Present runtime deg id g := discover_groups

theorem mem_frozenBefore {id : GroupId} :
    id ∈ frozenBefore (runtime.discover env.toScanEnv deg.sets).2 state deg ↔
      env.FrozenBefore runtime state deg id := by
  unfold frozenBefore PassEnv.FrozenBefore
  simp only [Finset.mem_union,List.mem_toFinset,List.mem_map,List.mem_filter,decide_eq_true_eq,
    Option.any_eq_true,(discover_setNames _).2,discover_unavailable,or_assoc]
  apply or_congr_right
  apply or_congr_right
  constructor
  · rintro ⟨r,⟨hr,hh⟩,rfl⟩
    exact ⟨r,hr,rfl,hh⟩
  · rintro ⟨r,hr,rfl,hh⟩
    exact ⟨r,⟨hr,hh⟩,rfl⟩

/-- What is observed after discovery. -/
def observedAfter (env : PassEnv H) (runtime : Runtime H) (state : State) (deg : Degraded) :
    Observed :=
  observe env (runtime.discover env.toScanEnv deg.sets).1 state
    (frozenBefore (runtime.discover env.toScanEnv deg.sets).2 state deg)

theorem passInput_eq : passInput env runtime state deg =
    ⟨(observedAfter env runtime state deg).desired,state,
      (observedAfter env runtime state deg).frozen,
      (observedAfter env runtime state deg).observations⟩ := rfl

theorem mem_frozenGroups {id : GroupId} :
    id ∈ (passInput env runtime state deg).frozenGroups ↔ env.Frozen runtime state deg id := by
  simp only [passInput_eq,observedAfter,observe_spec,mem_frozenBefore,discover_present,
    PassEnv.Frozen]

theorem mem_desired {d : DesiredMount} :
    d ∈ (passInput env runtime state deg).desired ↔ env.Wanted runtime state deg d := by
  simp only [passInput_eq,observedAfter,observe_spec,List.mem_flatMap,Prod.exists,
    ExtTreeMap.mem_toList_iff_getElem?_eq_some,discover_present,mem_desiredOf,mem_frozenBefore,
    PassEnv.Wanted,PassEnv.Frozen]
  constructor
  · rintro ⟨id,g,hg,hf,hu,m,hm,n,hn,hd⟩
    have hkey := desiredMount_key hd
    simp only [hkey]
    refine ⟨?_,g,m,hg,hm,hn,hd⟩
    rintro (h | ⟨g',hg',hu'⟩)
    · exact hf h
    · rw [← discover_present] at hg hg'
      rw [hg] at hg'
      cases hg'
      exact hu hu'
  · rintro ⟨hf,g,m,hg,hm,hn,hd⟩
    exact ⟨d.key.group,g,hg,fun h => hf (.inl h),fun hu => hf (.inr ⟨g,hg,hu⟩),m,hm,
      d.key.name,hn,hd⟩

theorem desired_keys_nodup :
    ((passInput env runtime state deg).desired.map DesiredMount.key).Nodup := by
  rw [passInput_eq]
  exact observe_keys_nodup env _ state _

/-! ### Observations -/

theorem observe_target {l : Location} (h : l ∈ observedTargets state (observe env rt state degraded)) :
    (observe env rt state degraded).observations.targets[l]? = some (observeTarget env l) :=
  (Maps.getElem?_foldl_insert_of_unique (by
    intro a _ b _ hab
    rw [hab]) _).mpr (.inl ⟨l,h,rfl,rfl⟩)

theorem observe_source {d : DesiredMount} (h : d ∈ (observe env rt state degraded).desired) :
    (observe env rt state degraded).observations.sources[d.key]? =
      some (observeSource env d.source) :=
  (Maps.getElem?_foldl_insert_of_unique (by
    intro a ha b hb hab
    rw [List.inj_on_of_nodup_map (observe_keys_nodup env rt state degraded) ha hb hab]) _).mpr
    (.inl ⟨d,h,rfl,rfl⟩)

theorem passInput_source {d : DesiredMount} (h : env.Wanted runtime state deg d) :
    (passInput env runtime state deg).source d.key = observeSource env d.source := by
  have hd := mem_desired.mpr h
  rw [passInput_eq] at hd ⊢
  simp only [PlanInput.source,observedAfter,observe_source hd,Option.getD_some]

theorem passInput_target {d : DesiredMount} (h : env.Wanted runtime state deg d) :
    (passInput env runtime state deg).target d.target = observeTarget env d.target := by
  have hd := mem_desired.mpr h
  have hl : d.target ∈ observedTargets state (observedAfter env runtime state deg) :=
    List.mem_append_left _ (List.mem_map_of_mem hd)
  simp only [passInput_eq,PlanInput.target,observedAfter,observe_target hl,Option.getD_some]

theorem passInput_record {r : MountRecord} (hr : r ∈ state.records)
    (hf : ¬env.Frozen runtime state deg r.group) :
    (passInput env runtime state deg).target r.targetLocation =
      observeTarget env r.targetLocation := by
  have hf' : r.group ∉ (observedAfter env runtime state deg).frozen := by
    rw [← mem_frozenGroups] at hf
    exact hf
  have hl : r.targetLocation ∈ observedTargets state (observedAfter env runtime state deg) := by
    apply List.mem_append_right
    apply List.mem_map_of_mem
    simpa using ⟨hr,hf'⟩
  simp only [passInput_eq,PlanInput.target,observedAfter,observe_target hl,Option.getD_some]

end Byssus
