import Byssus.DegradedGroups
import Byssus.LostGroups
import Byssus.ReadErrors

/-! The groups of sets over runs of the daemon.
A pass degrades every group whose directory it finds deleted.  A directory that the discovery
of a pass found, and that is deleted before the pass looks at it, makes a set group degraded. -/
namespace Byssus

open Std

variable {D H K : Type}

/-! ### Notes of deleted directories -/

/-- The directory has no links any more. -/
def ScanEnv.Deleted (env : ScanEnv H) (dir : H) : Prop :=
  (env.isDeleted dir).toOption.getD false = true

/-- Discovery never reports a deleted group. -/
def Plain (notes : List Note) : Prop := ∀ id, Note.membershipDeleted id ∉ notes

theorem plain_concat {notes : List Note} (h : Plain notes) {n : Note}
    (hn : ∀ id, n ≠ .membershipDeleted id) : Plain (notes++[n]) := by
  intro id hm
  rcases List.mem_append.mp hm with hm | hm
  · exact h id hm
  · exact hn id (List.mem_singleton.mp hm).symm

theorem scanEntry_plain {env : ScanEnv H} {set : GroupSetConfig} {levels : ℕ} {dir : H}
    {above : set.Prefix (levels+1)} {descend : Text → set.Prefix levels → H → SetScan H → SetScan H}
    (hd : ∀ name path opened scan, Plain scan.notes → Plain (descend name path opened scan).notes)
    {scan : SetScan H} (h : Plain scan.notes) (fileName : List UInt8) :
    Plain (scanEntry env set dir above descend scan fileName).notes := by
  unfold scanEntry
  split_ifs
  · exact h
  · cases classifySetEntry env dir fileName with
    | error reason => exact plain_concat h (by simp)
    | ok name =>
      cases name with
      | none => exact h
      | some name =>
        simp only
        cases env.openDir dir fileName with
        | ok opened => exact hd _ _ _ _ h
        | error e =>
          cases e with
          | noent => exact h
          | other code => exact plain_concat h (by simp)

theorem scanLevel_plain (env : ScanEnv H) (set : GroupSetConfig) (levels : ℕ) (dir : H)
    (above : set.Prefix levels) (scan : SetScan H) (h : Plain scan.notes) :
    Plain (scanLevel env set levels dir above scan).1.notes := by
  induction levels generalizing dir scan with
  | zero => exact h
  | succ levels ih =>
    simp only [scanLevel]
    cases env.readDir dir with
    | error e => exact h
    | ok r =>
      apply Lists.foldl_induction (P := fun _ (scan : SetScan H) => Plain scan.notes) h
      refine fun _ fileName scan h => scanEntry_plain ?_ h fileName
      intro name path opened scan h
      cases levels with
      | zero =>
        simp only [scanOpened]
        cases set.groupAt path with
        | ok config => exact h
        | error e => exact plain_concat h (by simp)
      | succ levels =>
        have hbelow := ih opened path scan h
        simp only [scanOpened]
        generalize scanLevel env set (levels+1) opened path scan = r at hbelow ⊢
        obtain ⟨scan',failed⟩ := r
        cases failed with
        | none => exact hbelow
        | some e => exact plain_concat hbelow (by simp)

theorem discover_plain (env : ScanEnv H) (runtime : Runtime H) (skip : Finset Name) :
    Plain (runtime.discover env skip).2.notes := by
  apply Lists.foldl_induction
    (P := fun _ (acc : Runtime H × Discovery) => Plain acc.2.notes) (by simp [Plain])
  intro _ entry acc h
  unfold Runtime.discoverStep
  by_cases hskip : entry.1 ∈ skip
  · simp only [if_pos hskip]
    exact h
  · simp only [if_neg hskip,discoverSet]
    split_ifs
    · exact plain_concat h (by simp)
    · have hscan := scanLevel_plain env entry.2.config entry.2.config.depth entry.2.rootDir
        entry.2.config.rootPrefix .empty (by simp [Plain,SetScan.empty])
      generalize scanLevel env entry.2.config entry.2.config.depth entry.2.rootDir
        entry.2.config.rootPrefix .empty = r at hscan ⊢
      obtain ⟨scan,failed⟩ := r
      cases failed with
      | some e => exact plain_concat h (by simp)
      | none =>
        intro id hm
        rcases List.mem_append.mp hm with hm | hm
        · exact h id hm
        · exact hscan id hm

theorem desiredMount_error {group : GroupId} {config : GroupConfig} {name : Name} {note : Note}
    (h : desiredMount group config name = .error note) :
    ∃ field e, note = .interpolationFailed group name field e := by
  unfold desiredMount interpolateFor at h
  cases hs : config.source.interpolate name <;> cases ht : config.target.interpolate name <;>
    simp only [hs,ht,Except.mapError] at h <;> cases h <;> exact ⟨_,_,rfl⟩

theorem addMembership_deleted {id id' : GroupId} {config : GroupConfig} {out : Observed}
    {m : Membership} : Note.membershipDeleted id ∈ (out.addMembership id' config m).notes ↔
      Note.membershipDeleted id ∈ out.notes := by
  have hmember : ∀ (names : List Name) (out : Observed), Note.membershipDeleted id ∈
      (names.foldl (Observed.addMember id' config) out).notes ↔
        Note.membershipDeleted id ∈ out.notes := by
    intro names
    induction names with
    | nil => exact fun _ => Iff.rfl
    | cons name names ih =>
      intro out
      rw [List.foldl_cons,ih]
      unfold Observed.addMember
      cases hd : desiredMount id' config name with
      | ok d => rfl
      | error note =>
        obtain ⟨field,e,rfl⟩ := desiredMount_error hd
        simp
  unfold Observed.addMembership
  split <;> simp [hmember]

theorem addGroup_deleted (env : PassEnv H) (degraded : Finset GroupId) (out : Observed)
    (entry : GroupId × GroupRuntime H) (id : GroupId) :
    Note.membershipDeleted id ∈ (out.addGroup env degraded entry).notes ↔
      Note.membershipDeleted id ∈ out.notes ∨
        (id = entry.1 ∧ id ∉ degraded ∧ env.Deleted entry.2.membershipDir) := by
  have heq : id = entry.1 → (id ∈ degraded ↔ entry.1 ∈ degraded) := fun h => by rw [h]
  unfold Observed.addGroup ScanEnv.Deleted
  by_cases hdeg : entry.1 ∈ degraded
  · simp only [if_pos hdeg]
    tauto
  · simp only [if_neg hdeg]
    by_cases hdel : (env.isDeleted entry.2.membershipDir).toOption.getD false = true
    · simp only [if_pos hdel,Observed.freeze,List.mem_append,List.mem_singleton,
        Note.membershipDeleted.injEq]
      tauto
    · simp only [if_neg hdel]
      cases scanMembership env.toScanEnv entry.2.membershipDir with
      | error e => simp [Observed.freeze,hdel]
      | ok m => simp [addMembership_deleted,hdel]

/-- The groups whose directories a pass finds deleted. -/
theorem note_deleted_iff {env : PassEnv H} {runtime : Runtime H} {state : State}
    {degraded : Degraded} {id : GroupId} :
    Note.membershipDeleted id ∈ (discoverAndObserve env runtime state degraded).2.notes ↔
      ¬env.FrozenBefore runtime state degraded id ∧
        ∃ g, env.Present runtime degraded id g ∧ env.Deleted g.membershipDir := by
  have hplain := discover_plain env.toScanEnv runtime degraded.sets id
  have hfold := Lists.foldl_or_iff (Q := fun out : Observed => Note.membershipDeleted id ∈ out.notes)
    (fun out entry => addGroup_deleted env
      (frozenBefore (runtime.discover env.toScanEnv degraded.sets).2 state degraded) out entry id)
    (runtime.discover env.toScanEnv degraded.sets).1.groups.toList
    ⟨[],⟨∅,∅⟩,frozenBefore (runtime.discover env.toScanEnv degraded.sets).2 state degraded,∅,∅,∅,[]⟩
  have hnotes : Note.membershipDeleted id ∈ (discoverAndObserve env runtime state degraded).2.notes ↔
      Note.membershipDeleted id ∈ (observe env (runtime.discover env.toScanEnv degraded.sets).1 state
        (frozenBefore (runtime.discover env.toScanEnv degraded.sets).2 state degraded)).notes :=
    List.mem_append.trans (or_iff_right hplain)
  rw [hnotes]
  unfold observe observeKernel
  simp only at hfold ⊢
  rw [hfold]
  simp only [List.not_mem_nil,false_or,Prod.exists,ExtTreeMap.mem_toList_iff_getElem?_eq_some,
    discover_present,mem_frozenBefore]
  constructor
  · rintro ⟨_,g,hg,rfl,hf,hdel⟩
    exact ⟨hf,g,hg,hdel⟩
  · rintro ⟨hf,g,hg,hdel⟩
    exact ⟨id,g,hg,rfl,hf,hdel⟩

/-! ### Runs -/

/-- No set group that the pass discovers is deleted when the pass comes to look at it. -/
def RaceFree (l : Loop H D) (a : PassAnswers H K D) : Prop :=
  ∀ id g, id.set.isSome = true → a.env.Present l.daemon.runtime l.daemon.degraded id g →
    ¬a.env.FrozenBefore l.daemon.runtime l.daemon.world.state l.daemon.degraded id →
    ¬a.env.Deleted g.membershipDir

/-- Only static groups are degraded by themselves. -/
def Loop.OnlyStatic (l : Loop H D) : Prop := ∀ g ∈ l.daemon.degraded.groups, g.set = none

/-- A drain reports only static groups lost. -/
theorem lost_static {w w' : Watcher} {events : List InotifyEvent} {failed : Option Errno}
    {changes : Changes} (h : w.drain events failed = .ok (changes,w')) {g : GroupId}
    (hg : g ∈ changes.lost) : g.set = none := by
  cases failed with
  | some e => cases h
  | none =>
    have hr : changes.Reports (.group g) := decide_eq_true hg
    rw [Watcher.drain_changes h,Watcher.classify_reports] at hr
    obtain ⟨e,-,-,-,-,hset⟩ := hr
    simpa [Watched.inSet] using hset

section
variable [DecidableEq D] {sys : InotifySys K}

theorem Loop.Small.onlyStatic {l l' : Loop H D} (hs : Loop.Small sys RaceFree l l')
    (h : l.OnlyStatic) : l'.OnlyStatic := by
  cases hs with
  | wait elapsed ended => exact h
  | reload a =>
    unfold Loop.OnlyStatic
    rcases Daemon.reload_cases sys a l.daemon with ⟨e,hr⟩ | ⟨_,_,_,-,-,-,hr⟩ <;> rw [hr]
    · exact h
    · exact fun g hg => absurd hg (Finset.notMem_empty g)
  | drain hd =>
    obtain ⟨watcher,hdrain,rfl⟩ := Daemon.handleInotify_ok hd
    have hunion : ∀ g ∈ l.daemon.degraded.groups ∪ _, g.set = none := fun g hg =>
      (Finset.mem_union.mp hg).elim (h g) (lost_static hdrain)
    unfold Loop.OnlyStatic
    split_ifs <;> exact hunion
  | pass trigger a hfree =>
    intro g hg
    rcases (Daemon.mem_foldl_recordNote_groups _ _ g).mp hg with hg | ⟨note,hnote,rfl⟩
    · exact h g hg
    · obtain ⟨hf,g',hg',hdel⟩ := note_deleted_iff.mp hnote
      by_contra hset
      exact hfree g g' (Option.isSome_iff_ne_none.mpr hset) hg' hf hdel

end

/-- The pass scans the set of the group, can read what lies on the way, and does not find it. -/
structure PassEnv.Gone (env : PassEnv H) (runtime : Runtime H) (degraded : Degraded)
    (id : GroupId) : Prop where
  scanned : ∃ s set, id.set = some s ∧ runtime.sets[s]? = some set ∧ s ∉ degraded.sets ∧
    env.Scannable set
  readable : ∀ pre, env.Unavailable runtime degraded.sets pre → id.startsWith pre = false
  absent : ∀ g, ¬env.Present runtime degraded id g

/-- A departing record: its mount is unmounted; one that is gone or replaced is forgotten. -/
def departure (r : MountRecord) : TargetState → Option Action
  | .notMounted => some (.dropRecord r .mountGone)
  | .mounted identity _ =>
    if identity.matches r.identity then some (.unmount r .notMember)
    else some (.dropRecord r .foreignMountAtTarget)
  | .unavailable _ => none

/-- Nothing freezes a group that is gone and not degraded. -/
theorem PassEnv.Gone.not_frozen {env : PassEnv H} {runtime : Runtime H} {state : State}
    {degraded : Degraded} {id : GroupId} (h : env.Gone runtime degraded id)
    (hid : id ∉ degraded.groups) : ¬env.Frozen runtime state degraded id := by
  obtain ⟨s,set,hs,hset,hdeg,hscan⟩ := h.scanned
  have hself : ¬env.Unavailable runtime degraded.sets id := fun hu => by
    have := h.readable id hu
    simp at this
  rintro ((hg | hu | ⟨r,-,-,hfrozen⟩) | ⟨g,hg,-⟩)
  · exact hid hg
  · exact hself hu
  · rcases hfrozen with ⟨s',hs',hcase⟩ | ⟨pre,hu,hpre⟩
    · rw [hs] at hs'
      cases hs'
      rcases hcase with hd | ⟨set',hset',-,hn⟩
      · exact hdeg hd
      · rw [hset] at hset'
        cases hset'
        exact hn hscan
    · rw [h.readable pre hu] at hpre
      cases hpre
  · exact h.absent g hg

/-- A record that no desired member has departs as one of no member. -/
theorem departAction_eq_departure {input : PlanInput} {r : MountRecord}
    (hdep : departs input r = true) (hno : ∀ d ∈ input.desired, d.key ≠ r.key) :
    departAction input r = departure r (input.target r.targetLocation) := by
  have haccepted : (accepted input)[r.key]? = none := by
    cases h : (accepted input)[r.key]? with
    | none => rfl
    | some d =>
      obtain ⟨hk,ha⟩ := (accepted_get input r.key d).mp h
      exact absurd hk (hno d ha.mem)
  have hany : (input.desired.any fun d => d.key = r.key && d.key.group ∉ input.frozenGroups) =
      false := by
    rw [List.any_eq_false]
    intro d hd
    simp [hno d hd]
  have hreason : unmountReason input (accepted input) r = .notMember := by
    unfold unmountReason
    simp only [haccepted,hany]
    rfl
  cases ht : input.target r.targetLocation <;> simp [departAction,departure,hdep,hreason,ht]

/-- The steps of a pass for the records of a group that is gone. -/
theorem PassEnv.Gone.steps {env : PassEnv H} {runtime : Runtime H} {state : State}
    {degraded : Degraded} {r : MountRecord} (h : env.Gone runtime degraded r.group)
    (hid : r.group ∉ degraded.groups) (hr : r ∈ state.records) {a : Action} (hk : a.key = r.key) :
    a ∈ (plan (passInput env runtime state degraded)).steps.map Step.action ↔
      departure r (observeTarget env r.targetLocation) = some a := by
  have hf : ¬env.Frozen runtime state degraded r.group := h.not_frozen hid
  rw [mem_steps_of_absent hr h.absent hk,departAction_eq_departure (departs_of_absent hf h.absent)
    fun d hd => not_desired_of_absent h.absent hd,passInput_record hr hf]

section
variable [DecidableEq D] {sys : InotifySys K}

/-- In every run without such races only static groups are degraded by themselves, and a pass
that scans a set and does not find a group plans the departure of each of its records. -/
theorem set_groups_removed (startup : Startup sys H) (world : World D) (unique : Bool) (clock : ℕ)
    {l : Loop H D} (h : Loop.Reaches sys RaceFree (.initial startup world unique clock) l) :
    l.OnlyStatic ∧ ∀ (a : PassAnswers H K D) (r : MountRecord), r ∈ l.daemon.world.state.records →
      a.env.Gone l.daemon.runtime l.daemon.degraded r.group → ∀ action, action.key = r.key →
      (action ∈ (l.daemon.runPass sys a).2.plan.steps.map Step.action ↔
        departure r (observeTarget a.env r.targetLocation) = some action) := by
  have hstatic : l.OnlyStatic := by
    induction h with
    | refl => exact fun g hg => absurd hg (Finset.notMem_empty g)
    | tail _ hs ih => exact hs.onlyStatic ih
  refine ⟨hstatic,fun a r hr hgone action hk => hgone.steps ?_ hr hk⟩
  intro hdeg
  obtain ⟨s,-,hs,-⟩ := hgone.scanned
  rw [hstatic r.group hdeg] at hs
  cases hs

end
/-! A group that is deleted between its discovery and the check of its directory. -/
namespace DeletedInPass

open Sample (b record identity state)
open SharedView (setName a)

def set : GroupSetConfig := (validateGroupSet setName TargetBeneath.rawSet
  TargetBeneath.options.mainFile).1.get (by decide +kernel)

theorem load_lists : (load TargetBeneath.env TargetBeneath.options).toOption.map
    (fun l => (l.config.groups.toList,l.config.groupSets.toList)) = some ([],[(setName,set)]) := by
  decide +kernel

theorem loaded_lists : TargetBeneath.loaded.config.groups.toList = [] ∧
    TargetBeneath.loaded.config.groupSets.toList = [(setName,set)] := by
  have hload := TargetBeneath.load_eq
  generalize TargetBeneath.loaded = l at hload ⊢
  exact Prod.ext_iff.mp (Program.eq_of_toOption_map load_lists hload)

/-- Every directory opens; the membership root has the handle 0. -/
def openEnv : OpenEnv ℕ := ⟨fun _ => .ok (),fun _ => .ok 0⟩

def runtime : Runtime ℕ := Runtime.empty.insertSet ⟨set,0⟩

theorem openSet_eq (s : GroupSetConfig) (rt : Runtime ℕ) :
    openSet openEnv s rt = .ok (rt.insertSet ⟨s,0⟩) := rfl

theorem open_eq : Runtime.open openEnv TargetBeneath.loaded.config = .ok runtime := by
  unfold Runtime.open runtime
  rw [loaded_lists.1,loaded_lists.2]
  simp only [List.foldlM_cons,List.foldlM_nil,openSet_eq,pure_bind]
  rfl

def sys : InotifySys Unit := SharedMembership.sys

def watcher : Watcher := (Watcher.new sys runtime ()).1.toOption.get (by decide +kernel)

def startup : Startup sys ℕ where
  options := TargetBeneath.options
  env := TargetBeneath.env
  loaded := TargetBeneath.loaded
  load_eq := TargetBeneath.load_eq
  openEnv := openEnv
  runtime := runtime
  open_eq := open_eq
  inotify := ()
  watcher := watcher
  new_eq := Program.ok_of_toOption (Option.some_get _).symm

/-- The root lists these names, and the directory of a group has the handle 1. -/
def env (names : List (List UInt8)) (deleted : Bool) : PassEnv ℕ where
  readDir := fun dir => .ok (if dir = 0 then names else [],none)
  statx := fun _ _ => .ok .directory
  openDir := fun _ _ => .ok 1
  isDeleted := fun dir => .ok (dir = 1 && deleted)
  strerror := fun _ => "an error"
  rootError := fun _ => none
  resolveDir := fun _ => .error "no such directory"
  inspect := fun _ => .mounted (identity 7 42) none

def answers (names : List (List UInt8)) (deleted : Bool) : PassAnswers ℕ Unit Unit where
  env := env names deleted
  inotify := ()
  steps := fun _ => ⟨fun _ t => t,fun _ => none,fun _ => (),⟨0,0,0⟩,0,none,⟨false,false,false,false,false⟩,0⟩
  elapsed := 0

/-- The group `a` is discovered, and deleted before it is looked at. -/
def race : PassAnswers ℕ Unit Unit := answers [[97]] true
/-- The group `a` is not there any more. -/
def later : PassAnswers ℕ Unit Unit := answers [] true

def group : GroupId := .inSet setName [a]
def recordOf : MountRecord := record group b "a/b" 7 42
def world : World Unit := ⟨fun _ => [],state [recordOf],state [recordOf],[]⟩

def first : Loop ℕ Unit := .start startup world true 0 race

theorem mem_degraded : group ∈ first.daemon.degraded.groups := by
  decide +kernel

theorem recordOf_mem : recordOf ∈ first.daemon.world.state.records := by
  decide +kernel

theorem set_name : set.name = setName := by decide +kernel

theorem sets_get : first.daemon.runtime.sets[setName]? = some ⟨set,0⟩ := by
  have h : first.daemon.runtime = (startup.runtime.discover race.env.toScanEnv ∅).1 :=
    (Loop.start_frame startup world true 0 race).2.2.2.2.2
  rw [h,discover_sets]
  show runtime.sets[setName]? = _
  simp [runtime,Runtime.insertSet,Runtime.empty,set_name]

theorem gone : later.env.Gone first.daemon.runtime first.daemon.degraded group where
  scanned := ⟨setName,⟨set,0⟩,rfl,sets_get,by decide +kernel,rfl,by
    unfold ScanEnv.ListingFails
    decide +kernel⟩
  readable := by
    intro pre h
    rw [← discover_unavailable] at h
    have hnone : (first.daemon.runtime.discover later.env.toScanEnv
        first.daemon.degraded.sets).2.unavailable = ∅ := by decide +kernel
    rw [hnone] at h
    cases h
  absent := by
    intro g h
    rw [← discover_present] at h
    have hnone : ((first.daemon.runtime.discover later.env.toScanEnv
        first.daemon.degraded.sets).1.groups[group]?).isNone = true := by decide +kernel
    rw [h] at hnone
    cases hnone

/-- The set group is degraded, and when a later pass scans the set and does not find it, the
mount of its record stays. -/
theorem set_group_degraded : group ∈ first.daemon.degraded.groups ∧ group.set = some setName ∧
    recordOf ∈ first.daemon.world.state.records ∧ recordOf.group = group ∧
    later.env.Gone first.daemon.runtime first.daemon.degraded group ∧
    departure recordOf (observeTarget later.env recordOf.targetLocation) =
      some (.unmount recordOf .notMember) ∧
    (first.daemon.runPass sys later).2.plan.steps = [] :=
  ⟨mem_degraded,rfl,recordOf_mem,rfl,gone,by decide +kernel,by decide +kernel⟩

theorem raceFree (l : Loop ℕ Unit) (names : List (List UInt8)) : RaceFree l (answers names false) := by
  intro id g _ _ _ h
  simp [ScanEnv.Deleted,answers,env,Except.toOption] at h

/-- After a pass that finds the group where it is. -/
def found : Loop ℕ Unit := .start startup world true 0 (answers [[97]] false)

theorem set_groups_removed_run : found.OnlyStatic ∧
    ∀ (a : PassAnswers ℕ Unit Unit) (r : MountRecord), r ∈ found.daemon.world.state.records →
      a.env.Gone found.daemon.runtime found.daemon.degraded r.group → ∀ action, action.key = r.key →
      (action ∈ (found.daemon.runPass sys a).2.plan.steps.map Step.action ↔
        departure r (observeTarget a.env r.targetLocation) = some action) :=
  set_groups_removed startup world true 0
    (.single (.pass .startup (answers [[97]] false) (raceFree _ _)))

end DeletedInPass
end Byssus
