import Byssus.Library.Program
import Byssus.ObserveSpec

/-! What a read error does to the groups of a set.
Records at or beneath a directory that cannot be opened or listed are frozen.  A failed
type check of an entry is no such error: the entry counts as rejected and its groups as
removed.  And only records freeze a group: one without records, found before the listing
of a directory above it fails, is planned like any other. -/
namespace Byssus

variable {H : Type}

namespace ScanEnv

variable (env : ScanEnv H)

/-- A type check on the way along `path` fails. -/
def UntypedOn : ℕ → H → List Name → Prop
  | levels+1,dir,n::rest =>
    env.Untyped dir n ∨ ∃ next, env.Enters dir n next ∧ UntypedOn levels next rest
  | _,_,_ => False

/-- On the way along `path` a directory cannot be listed, or a listed entry cannot be
typed or opened. -/
def ReadFails : ℕ → H → List Name → Prop
  | 0,_,_ => False
  | _+1,dir,[] => env.ListingFails dir
  | levels+1,dir,n::rest => env.ListingFails dir ∨ env.Untyped dir n ∨ env.Shut dir n ∨
      ∃ next, env.Enters dir n next ∧ ReadFails levels next rest

/-- A read on the way to the group at `path` fails, that of its own directory included. -/
def PathFails (set : SetRuntime H) (path : List Name) : Prop :=
  env.ReadFails set.config.depth set.rootDir path ∨
    ∃ g, env.Found set.config set.rootDir [] g ∧ g.config.name = .inSet set.config.name path ∧
      env.ListingFails g.membershipDir

variable {env}

theorem UntypedOn.not_walks {levels : ℕ} {dir sub : H} {path : List Name}
    (h : env.UntypedOn levels dir path) : ¬env.Walks dir path sub := by
  induction levels generalizing dir path with
  | zero => cases h
  | succ levels ih =>
    cases path with
    | nil => cases h
    | cons n rest =>
      rintro ⟨next,hn,hw⟩
      rcases h with hu | ⟨next',hn',hu⟩
      · exact hn.not_untyped hu
      · rw [hn'.unique hn] at hu
        exact ih hu hw

theorem ReadFails.cases {levels : ℕ} {dir : H} {path : List Name}
    (h : env.ReadFails levels dir path) :
    env.UntypedOn levels dir path ∨ ∃ pre, pre <+: path ∧ env.Unread levels dir pre := by
  induction levels generalizing dir path with
  | zero => cases h
  | succ levels ih =>
    cases path with
    | nil => exact .inr ⟨[],List.prefix_rfl,h⟩
    | cons n rest =>
      rcases h with hf | hu | hs | ⟨next,hn,hr⟩
      · exact .inr ⟨[],List.nil_prefix,hf⟩
      · exact .inl (.inl hu)
      · exact .inr ⟨[n],by simp,.inl ⟨rfl,hs⟩⟩
      · rcases ih hr with hu | ⟨pre,hp,hu⟩
        · exact .inl (.inr ⟨next,hn,hu⟩)
        · exact .inr ⟨n::pre,by simpa using hp,.inr ⟨next,hn,hu⟩⟩

theorem Walks.unread {levels : ℕ} {dir sub : H} {path : List Name} (h : env.Walks dir path sub)
    (hlt : path.length < levels) (hf : env.ListingFails sub) : env.Unread levels dir path := by
  induction path generalizing levels dir with
  | nil =>
    obtain ⟨k,rfl⟩ := Nat.exists_eq_succ_of_ne_zero (by omega : levels ≠ 0)
    rw [show sub = dir from h] at hf
    exact hf
  | cons n rest ih =>
    obtain ⟨k,rfl⟩ := Nat.exists_eq_succ_of_ne_zero (by omega : levels ≠ 0)
    obtain ⟨next,hn,hw⟩ := h
    exact .inr ⟨next,hn,ih hw (by simpa using hlt)⟩

/-- At the root only the listing itself can fail. -/
theorem Scannable.not_unread_root {set : SetRuntime H} (h : env.Scannable set) :
    ¬env.Unread set.config.depth set.rootDir [] := by
  obtain ⟨k,hk⟩ := Nat.exists_eq_succ_of_ne_zero set.config.depth_pos.ne'
  rw [hk]
  exact h.2

end ScanEnv

section

variable {env : PassEnv H} {runtime : Runtime H} {state : State} {degraded : Degraded} {s : Name}
  {set : SetRuntime H} {path : List Name} {r : MountRecord}

/-- The records of a set that is not scanned, or of which a directory on the way cannot be
read, are frozen. -/
theorem frozen_of_unread (hset : runtime.sets[s]? = some set) (hr : r ∈ state.records)
    (hg : r.group = .inSet s path) {pre : List Name} (hp : pre <+: path)
    (hu : s ∈ degraded.sets ∨ ¬env.Scannable set ∨
      env.Unread set.config.depth set.rootDir pre) :
    env.FrozenBefore runtime state degraded r.group := by
  refine .inr (.inr ⟨r,hr,rfl,?_⟩)
  by_cases hskip : s ∈ degraded.sets
  · exact .inl ⟨s,by simp [hg],.inl hskip⟩
  · by_cases hs : env.Scannable set
    · have hu' : env.Unread set.config.depth set.rootDir pre := by tauto
      have hne : pre ≠ [] := by
        rintro rfl
        exact hs.not_unread_root hu'
      exact .inr ⟨.inSet s pre,⟨s,set,pre,hset,hskip,hs,hne,hu',rfl⟩,by simpa [hg] using hp⟩
    · exact .inl ⟨s,by simp [hg],.inr ⟨set,hset,hskip,hs⟩⟩

theorem PassEnv.Present.found {g : GroupRuntime H} (hset : runtime.sets[s]? = some set)
    (h : env.Present runtime degraded (.inSet s path) g) :
    env.Found set.config set.rootDir [] g ∧ s ∉ degraded.sets ∧ env.Scannable set ∧
      env.Walks set.rootDir path g.membershipDir := by
  rcases h with ⟨hn,-⟩ | ⟨⟨s',set',hset',hskip,hs,hf⟩,hname⟩
  · cases hn
  · obtain ⟨path',-,hw,hn⟩ := hf.name
    rw [hname,runtime.sets_keyed s' set' hset',GroupId.inSet_inj] at hn
    obtain ⟨rfl,rfl⟩ := hn
    rw [hset] at hset'
    cases hset'
    exact ⟨hf,hskip,hs,hw⟩

/-- Any failure on the way but that of a type check freezes the records. -/
theorem frozen_of_pathFails (hset : runtime.sets[s]? = some set) (hr : r ∈ state.records)
    (hg : r.group = .inSet s path) (hfail : env.PathFails set path)
    (hu : ¬env.UntypedOn set.config.depth set.rootDir path) :
    env.Frozen runtime state degraded r.group := by
  rcases hfail with hf | ⟨g,hfound,hname,hlist⟩
  · rcases hf.cases with h | ⟨pre,hp,hunread⟩
    · exact absurd h hu
    · exact .inl (frozen_of_unread hset hr hg hp (.inr (.inr hunread)))
  · by_cases hscan : s ∉ degraded.sets ∧ env.Scannable set
    · refine .inr ⟨g,.inr ⟨⟨s,set,hset,hscan.1,hscan.2,hfound⟩,?_⟩,.inr hlist⟩
      rw [hname,hg,runtime.sets_keyed s set hset]
    · have hnil : ([] : List Name) <+: path := List.nil_prefix
      exact .inl (frozen_of_unread hset hr hg hnil (by tauto))

/-- The set is scanned, no directory on the way fails to be opened or listed, and a type
check on the way fails. -/
structure PassEnv.TypeCheckDecides (env : PassEnv H) (degraded : Degraded) (s : Name)
    (set : SetRuntime H) (path : List Name) : Prop where
  group : GroupId.inSet s path ∉ degraded.groups
  skip : s ∉ degraded.sets
  scannable : env.Scannable set
  read : ∀ pre, pre ≠ [] → pre <+: path → ¬env.Unread set.config.depth set.rootDir pre
  untyped : env.UntypedOn set.config.depth set.rootDir path

theorem frozen_iff_of_untyped (degraded : Degraded) (hset : runtime.sets[s]? = some set)
    (hr : r ∈ state.records) (hg : r.group = .inSet s path)
    (hu : env.UntypedOn set.config.depth set.rootDir path) :
    ¬env.Frozen runtime state degraded r.group ↔ env.TypeCheckDecides degraded s set path := by
  constructor
  · intro hf
    have hskip : s ∉ degraded.sets := fun h =>
      hf (.inl (frozen_of_unread hset hr hg List.nil_prefix (.inl h)))
    have hs : env.Scannable set := by
      by_contra h
      exact hf (.inl (frozen_of_unread hset hr hg List.nil_prefix (.inr (.inl h))))
    refine ⟨fun h => hf (.inl (.inl (by rwa [hg]))),hskip,hs,fun pre _ hp h => ?_,hu⟩
    exact hf (.inl (frozen_of_unread hset hr hg hp (.inr (.inr h))))
  · rintro ⟨hgroup,hskip,hs,hread,-⟩
    have hun : ∀ pre, env.Unavailable runtime degraded.sets pre →
        r.group.startsWith pre = true → False := by
      rintro pre ⟨s',set',p,hset',-,-,hne,hunread,rfl⟩ hpre
      rw [hg,GroupId.startsWith_iff] at hpre
      obtain ⟨hss,hp⟩ := hpre
      cases hss
      rw [hset] at hset'
      cases hset'
      exact hread p hne hp hunread
    rintro ((h | h | ⟨r',-,hr',⟨s',hs',h⟩ | ⟨pre,hpre,hstart⟩⟩) | ⟨g,hg',-⟩)
    · rw [hg] at h
      exact hgroup h
    · exact hun _ h (by simp)
    · rw [hg,GroupId.inSet_set,Option.some.injEq] at hs'
      subst hs'
      rcases h with h | ⟨set',hset',-,h⟩
      · exact hskip h
      · rw [hset] at hset'
        cases hset'
        exact h hs
    · exact hun pre hpre hstart
    · rw [hg] at hg'
      exact hu.not_walks (hg'.found hset).2.2.2

/-- A member of a group that is not there is not desired. -/
theorem not_desired_of_absent (habsent : ∀ g, ¬env.Present runtime degraded r.group g)
    {d : DesiredMount} (hd : d ∈ (passInput env runtime state degraded).desired) :
    d.key ≠ r.key := by
  intro hk
  obtain ⟨-,g,-,hg,-⟩ := mem_desired.mp hd
  rw [hk] at hg
  exact habsent g hg

theorem departs_of_absent (hf : ¬env.Frozen runtime state degraded r.group)
    (habsent : ∀ g, ¬env.Present runtime degraded r.group g) :
    departs (passInput env runtime state degraded) r = true := by
  rw [departs_iff_leaves]
  exact ⟨fun h => hf (mem_frozenGroups.mp h),
    fun d hd _ hk => absurd hk (not_desired_of_absent habsent hd)⟩

/-- The steps for a record whose group is not there are those of a departing record. -/
theorem mem_steps_of_absent (hr : r ∈ state.records)
    (habsent : ∀ g, ¬env.Present runtime degraded r.group g) {a : Action} (hk : a.key = r.key) :
    a ∈ (plan (passInput env runtime state degraded)).steps.map Step.action ↔
      departAction (passInput env runtime state degraded) r = some a := by
  constructor
  · intro ha
    rcases mem_plannedActions (mem_plan_actions.mp ha) with ⟨r',hr',hdr⟩ | ⟨d,hd,hda⟩
    · have hrr : r' = r := State.eq_of_key_eq hr' hr (by
        rw [← (departAction_removes hdr).key_eq,hk])
      rwa [hrr] at hdr
    · rcases mem_memberActions hda with rfl | ⟨r',hrec,hrem⟩
      · exact absurd hk (not_desired_of_absent habsent hd.mem)
      · rw [hrem.key_eq,State.key_of_get (recordHere_iff.mp hrec).1] at hk
        exact absurd hk (not_desired_of_absent habsent hd.mem)
  · intro hda
    apply mem_plan_actions.mpr
    exact List.mem_append_left _ (List.mem_filterMap.mpr ⟨r,hr,hda⟩)

/-- A record whose member no pass can desire now is planned as departing. -/
theorem step_of_absent_iff (hr : r ∈ state.records)
    (hf : ¬env.Frozen runtime state degraded r.group)
    (habsent : ∀ g, ¬env.Present runtime degraded r.group g) :
    (∃ a ∈ (plan (passInput env runtime state degraded)).steps.map Step.action, a.key = r.key) ↔
      ∀ reason, observeTarget env r.targetLocation ≠ .unavailable reason := by
  have hnone := departAction_none_iff (departs_of_absent hf habsent)
  rw [passInput_record hr hf] at hnone
  constructor
  · rintro ⟨a,ha,hk⟩ reason hu
    rw [mem_steps_of_absent hr habsent hk,hnone.mpr ⟨reason,hu⟩] at ha
    cases ha
  · intro hu
    cases hda : departAction (passInput env runtime state degraded) r with
    | none =>
      obtain ⟨reason,h⟩ := hnone.mp hda
      exact absurd h (hu reason)
    | some a =>
      have hk := (departAction_removes hda).key_eq
      exact ⟨a,(mem_steps_of_absent hr habsent hk).mpr hda,hk⟩

/-- Records survive the read errors on the way to their group, unless the error that
decides is that of a type check and the target can be inspected. -/
theorem read_errors_keep_record_iff (hset : runtime.sets[s]? = some set)
    (hr : r ∈ state.records) (hg : r.group = .inSet s path) (hfail : env.PathFails set path) :
    (∀ a ∈ (plan (passInput env runtime state degraded)).steps.map Step.action,
        a.key ≠ r.key) ↔
      ¬(env.TypeCheckDecides degraded s set path ∧
        ∀ reason, observeTarget env r.targetLocation ≠ .unavailable reason) := by
  have hfrozen : env.Frozen runtime state degraded r.group →
      ∀ a ∈ (plan (passInput env runtime state degraded)).steps.map Step.action,
        a.key ≠ r.key := by
    intro hf a ha hk
    apply plan_notFrozen ha
    rw [hk]
    exact mem_frozenGroups.mpr hf
  by_cases hu : env.UntypedOn set.config.depth set.rootDir path
  · have hiff := frozen_iff_of_untyped degraded hset hr hg hu
    by_cases hf : env.Frozen runtime state degraded r.group
    · have hno : ¬env.TypeCheckDecides degraded s set path := fun h => hiff.mpr h hf
      simp only [hno,false_and,not_false_eq_true,iff_true]
      exact hfrozen hf
    · have habsent : ∀ g, ¬env.Present runtime degraded r.group g := by
        intro g h
        rw [hg] at h
        exact hu.not_walks (h.found hset).2.2.2
      have hstep := step_of_absent_iff hr hf habsent
      simp only [hiff.mp hf,true_and,← hstep]
      push Not
      rfl
  · have hno : ¬env.TypeCheckDecides degraded s set path := fun h => hu h.untyped
    simp only [hno,false_and,not_false_eq_true,iff_true]
    exact hfrozen (frozen_of_pathFails hset hr hg hfail hu)

end

namespace UntypedEntry

open Sample

/-- A set, given by its target template. -/
def rawSet (target : String) : RawGroupSet where
  membershipRoot := "/members".toList
  sourceRoot := "/data".toList
  source := "\x7bname\x7d".toList
  targetRoot := "/view".toList
  target := target.toList
  readOnly := none
  noexec := none
  nosymfollow := none

def setName : Name := ⟨"set".toList,by decide⟩

def set : GroupSetConfig :=
  (validateGroupSet setName (rawSet "\x7bgroup\x7d/\x7bname\x7d") []).1.get (by decide +kernel)

/-- The runtime of one set, whose membership root is the handle 0. -/
def runtimeOf (set : GroupSetConfig) : Runtime ℕ where
  groups := ∅
  sets := (∅ : Std.ExtTreeMap Name (SetRuntime ℕ)).insert set.name ⟨set,0⟩
  intermediates := ∅
  groups_keyed := by simp
  sets_keyed := by
    intro n s h
    rw [Std.ExtTreeMap.getElem?_insert] at h
    split at h
    · rename_i hn
      cases h
      exact Std.LawfulEqCmp.eq_of_compare hn
    · simp at h

/-- The root lists the entry `a`, whose type check fails with EIO. -/
def env : PassEnv ℕ where
  readDir := fun dir => .ok (if dir = 0 then [[97]] else [],none)
  statx := fun _ _ => .error (.other 5)
  openDir := fun _ _ => .ok 1
  isDeleted := fun _ => .ok false
  strerror := fun _ => "Input/output error (os error 5)"
  rootError := fun _ => none
  resolveDir := fun _ => .ok (dir 42)
  inspect := fun _ => .mounted (identity 7 42) none

def group : GroupId := .inSet setName [a]

def input : PlanInput :=
  passInput env (runtimeOf set) (state [record group b "a/b" 7 42]) ⟨∅,∅⟩

theorem set_name : set.name = setName := by decide +kernel

theorem sets_get : (runtimeOf set).sets[setName]? = some ⟨set,0⟩ := by
  simp [runtimeOf,set_name]

theorem record_mem : record group b "a/b" 7 42 ∈ (state [record group b "a/b" 7 42]).records := by
  decide +kernel

theorem pathFails : env.PathFails ⟨set,0⟩ [a] := by
  have hd : set.depth = 1 := by decide +kernel
  refine .inl ?_
  rw [hd]
  exact .inr (.inl ⟨[97],.other 5,⟨Program.ok_of_toOption (by decide +kernel),_,_,rfl,by simp⟩,
    rfl,by simp⟩)

theorem read_errors_keep_record_iff_run :
    (∀ step ∈ (plan input).steps.map Step.action, step.key ≠ (record group b "a/b" 7 42).key) ↔
      ¬(env.TypeCheckDecides ⟨∅,∅⟩ setName ⟨set,0⟩ [a] ∧
        ∀ reason, observeTarget env (record group b "a/b" 7 42).targetLocation ≠
          .unavailable reason) :=
  read_errors_keep_record_iff sets_get record_mem rfl pathFails

/-- The type check of a listed group directory fails, and the mount of its record is removed. -/
theorem untyped_entry_unmounts :
    ¬∀ (env : PassEnv ℕ) (runtime : Runtime ℕ) (state : State) (degraded : Degraded) (s : Name)
      (set : SetRuntime ℕ) (path : List Name) (r : MountRecord), runtime.sets[s]? = some set →
      r ∈ state.records → r.group = .inSet s path → env.PathFails set path →
      ∀ step ∈ (plan (passInput env runtime state degraded)).steps.map Step.action,
        step.key ≠ r.key := by
  intro h
  exact h env (runtimeOf set) _ ⟨∅,∅⟩ setName ⟨set,0⟩ [a] (record group b "a/b" 7 42) sets_get
    record_mem rfl pathFails (.unmount (record group b "a/b" 7 42) .notMember)
    (by decide +kernel) rfl

end UntypedEntry

section

variable {env : PassEnv H} {runtime : Runtime H} {state : State} {degraded : Degraded} {s : Name}
  {set : SetRuntime H} {path : List Name}

/-! ### Directories that are read in part -/

/-- A wanted member of a group without records that is mounted: its source resolves, nothing
else is wanted at its target, which is empty or shows the mount of a record that is not
frozen. -/
structure PassEnv.Fresh (env : PassEnv H) (runtime : Runtime H) (state : State)
    (degraded : Degraded) (d : DesiredMount) : Prop where
  unrecorded : ∀ r ∈ state.records, r.group ≠ d.key.group
  source : ∃ root, observeSource env d.source = .resolved root
  alone : ∀ e, env.Wanted runtime state degraded e → e.target = d.target → e = d
  target : observeTarget env d.target = .notMounted ∨ ∃ q ∈ state.records,
    ¬env.Frozen runtime state degraded q.group ∧ q.targetLocation = d.target ∧
      (observeTarget env d.target).shows q = true

/-- Collision detection keeps a member without a record where no other is wanted. -/
theorem accepts_of_unrecorded {d : DesiredMount} (hd : env.Wanted runtime state degraded d)
    (hrec : ∀ r ∈ state.records, r.group ≠ d.key.group) :
    Accepts (passInput env runtime state degraded) d ↔
      ∀ e, env.Wanted runtime state degraded e → e.target = d.target → e = d := by
  have hmem : ∀ e, e ∈ membersAt (passInput env runtime state degraded) d.target ↔
      env.Wanted runtime state degraded e ∧ e.target = d.target := by
    intro e
    rw [mem_membersAt,mem_desired,mem_frozenGroups]
    exact ⟨fun h => ⟨h.1,h.2.2⟩,fun h => ⟨h.1,h.1.1,h.2⟩⟩
  have hver : ∀ t, isVerified (passInput env runtime state degraded) t d = false := by
    intro t
    unfold isVerified
    cases hg : (passInput env runtime state degraded).state.get d.key with
    | none => rfl
    | some r =>
      have hr := State.mem_records_of_get hg
      have hk := State.key_of_get hg
      exact absurd (by rw [← hk]; rfl) (hrec r hr)
  constructor
  · intro ha e he ht
    have hc := ha.1
    have hem := (hmem e).mpr ⟨he,ht⟩
    unfold chosen keptOf at hc
    split at hc
    · rename_i x hx
      cases hc
      rw [hx] at hem
      exact List.mem_singleton.mp hem
    · have hv := List.find?_some hc
      rw [hver] at hv
      cases hv
  · intro halone
    have hnodup : (membersAt (passInput env runtime state degraded) d.target).Nodup :=
      (List.Nodup.of_map _ desired_keys_nodup).filter _
    have hsingle : membersAt (passInput env runtime state degraded) d.target = [d] := by
      have hdm := (hmem d).mpr ⟨hd,rfl⟩
      have hall : ∀ e ∈ membersAt (passInput env runtime state degraded) d.target, e = d :=
        fun e he => halone e ((hmem e).mp he).1 ((hmem e).mp he).2
      exact Lists.eq_singleton_of_nodup hnodup hdm hall
    refine ⟨by simp [chosen,hsingle,keptOf],fun e he _ hk => .inl ?_⟩
    exact List.inj_on_of_nodup_map desired_keys_nodup he (mem_desired.mpr hd) hk

theorem mountable_iff_fresh {d : DesiredMount} (hd : env.Wanted runtime state degraded d)
    (hrec : ∀ r ∈ state.records, r.group ≠ d.key.group) :
    Mountable (passInput env runtime state degraded) d ↔
      env.Fresh runtime state degraded d := by
  have hget : ∀ r, (passInput env runtime state degraded).state.get d.key ≠ some r := by
    intro r hg
    exact hrec r (State.mem_records_of_get hg) (by rw [← State.key_of_get hg]; rfl)
  unfold Mountable
  rw [accepts_of_unrecorded hd hrec,passInput_source hd,passInput_target hd]
  have hleaves : (∀ e, env.Wanted runtime state degraded e → e.target = d.target → e = d) →
      ∀ q ∈ state.records, q.targetLocation = d.target →
        (Leaves (passInput env runtime state degraded) q ↔
          ¬env.Frozen runtime state degraded q.group) := by
    intro halone q hq ht
    unfold Leaves
    rw [mem_frozenGroups]
    constructor
    · exact And.left
    · intro hf
      refine ⟨hf,fun e he _ hk => ?_⟩
      rw [← Bool.not_eq_true,recordMatchesDesired_iff]
      rintro ⟨-,hte⟩
      have hed := halone e (mem_desired.mp he) (by rw [← hte,ht])
      subst hed
      exact hrec q hq (by rw [hk]; rfl)
  constructor
  · rintro ⟨halone,hsrc,⟨r,hg,-⟩ | ⟨-,ht⟩⟩
    · exact absurd hg (hget r)
    · refine ⟨hrec,hsrc,halone,ht.imp_right ?_⟩
      rintro ⟨q,hq,hl,hqt,hs⟩
      exact ⟨q,hq,(hleaves halone q hq hqt).mp hl,hqt,hs⟩
  · rintro ⟨-,hsrc,halone,ht⟩
    refine ⟨halone,hsrc,.inr ⟨fun r hg => absurd hg (hget r),ht.imp_right ?_⟩⟩
    rintro ⟨q,hq,hf,hqt,hs⟩
    exact ⟨q,hq,(hleaves halone q hq hqt).mpr hf,hqt,hs⟩

/-- The plan has no step for a group at or beneath a directory that could not be listed to
its end exactly when no member of a group without records there is fresh. -/
theorem partly_read_unchanged_iff (hset : runtime.sets[s]? = some set) {h : H}
    (hlt : path.length < set.config.depth) (hwalk : env.Walks set.rootDir path h)
    (hfail : env.ListingFails h) :
    (∀ a ∈ (plan (passInput env runtime state degraded)).steps.map Step.action,
        a.key.group.startsWith (.inSet s path) = false) ↔
      ∀ d, env.Wanted runtime state degraded d →
        d.key.group.startsWith (.inSet s path) = true →
        ¬env.Fresh runtime state degraded d := by
  have hunread := hwalk.unread hlt hfail
  have hfrozen : ∀ r ∈ state.records, r.group.startsWith (.inSet s path) = true →
      env.Frozen runtime state degraded r.group := by
    intro r hr hstart
    obtain ⟨hs,hp⟩ := (GroupId.startsWith_iff _ _).mp hstart
    have hg : r.group = .inSet s r.group.path := by
      cases hgr : r.group
      simp [GroupId.inSet,hgr] at hs ⊢
      exact hs
    exact .inl (frozen_of_unread hset hr hg hp (.inr (.inr hunread)))
  constructor
  · intro hno d hd hstart hfresh
    have hm := (mountable_iff_fresh hd hfresh.unrecorded).mpr hfresh
    have hh := hno _ ((plan_mount_iff _ d).mpr hm)
    rw [show (Action.mount d).key = d.key from rfl,hstart] at hh
    cases hh
  · intro hno a ha
    by_contra hstart
    rw [Bool.not_eq_false] at hstart
    have hnf := plan_notFrozen ha
    rw [mem_frozenGroups] at hnf
    rcases a.removes_or_mounts with ⟨r,hrem⟩ | ⟨d,rfl⟩
    · have hr := plan_removes_record ha hrem
      rw [hrem.key_eq] at hstart hnf
      exact hnf (hfrozen r hr hstart)
    · have hm := (plan_mount_iff _ d).mp ha
      have hd := mem_desired.mp hm.1.mem
      have hrec : ∀ r ∈ state.records, r.group ≠ d.key.group := by
        intro r hr hg
        have hf := hfrozen r hr (by rw [hg]; exact hstart)
        rw [hg] at hf
        exact hnf hf
      exact hno d hd hstart ((mountable_iff_fresh hd hrec).mp hm)

end

namespace PartlyRead

open Sample UntypedEntry

def set : GroupSetConfig :=
  (validateGroupSet setName (rawSet "\x7bgroup\x7d/\x7bsubgroup\x7d/\x7bname\x7d") []).1.get
    (by decide +kernel)

/-- The directory `a` of the root lists the group `b`, and then fails with EIO; the
group has the member `a`, and nothing is mounted yet. -/
def env : PassEnv ℕ where
  readDir := fun dir =>
    if dir = 0 then .ok ([[97]],none)
    else if dir = 1 then .ok ([[98]],some (.other 5))
    else .ok ([[97]],none)
  statx := fun dir _ => .ok (if dir = 2 then .regular 0 else .directory)
  openDir := fun dir _ => .ok (dir+1)
  isDeleted := fun _ => .ok false
  strerror := fun _ => "Input/output error (os error 5)"
  rootError := fun _ => none
  resolveDir := fun _ => .ok (dir 42)
  inspect := fun _ => .notMounted

def desired : DesiredMount :=
  ⟨⟨.inSet setName [a,b],a⟩,data "a",view "a/b/a",.default⟩

theorem set_name : set.name = setName := by decide +kernel

theorem sets_get : (runtimeOf set).sets[setName]? = some ⟨set,0⟩ := by
  simp [runtimeOf,set_name]

theorem short : [a].length < (⟨set,0⟩ : SetRuntime ℕ).config.depth := by decide +kernel

theorem walks : env.Walks 0 [a] 1 :=
  ⟨1,⟨[97],⟨Program.ok_of_toOption (by decide +kernel),_,_,rfl,by simp⟩,rfl,rfl⟩,rfl⟩

theorem listingFails : env.ListingFails 1 := rfl

theorem partly_read_unchanged_iff_run :
    (∀ step ∈ (plan (passInput env (runtimeOf set) .empty ⟨∅,∅⟩)).steps.map Step.action,
        step.key.group.startsWith (.inSet setName [a]) = false) ↔
      ∀ d, env.Wanted (runtimeOf set) .empty ⟨∅,∅⟩ d →
        d.key.group.startsWith (.inSet setName [a]) = true →
        ¬env.Fresh (runtimeOf set) .empty ⟨∅,∅⟩ d :=
  partly_read_unchanged_iff sets_get short walks listingFails

/-- A member of a group found before the listing of the directory above fails is mounted. -/
theorem partly_read_mounts :
    ¬∀ (env : PassEnv ℕ) (runtime : Runtime ℕ) (state : State) (degraded : Degraded) (s : Name)
      (set : SetRuntime ℕ) (path : List Name) (h : ℕ), runtime.sets[s]? = some set →
      0 < path.length → path.length < set.config.depth → env.Walks set.rootDir path h →
      env.ListingFails h →
      ∀ step ∈ (plan (passInput env runtime state degraded)).steps.map Step.action,
        step.key.group.startsWith (.inSet s path) = false := by
  intro h
  have hh := h env (runtimeOf set) .empty ⟨∅,∅⟩ setName ⟨set,0⟩ [a] 1 sets_get (by simp) short walks
    listingFails (.mount desired) (by decide +kernel)
  exact absurd hh (by decide)

end PartlyRead
end Byssus
