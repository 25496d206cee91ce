import Mathlib.Logic.Relation
import Byssus.ConfigLoad
import Byssus.Execute
import Byssus.Observe
import Byssus.Watcher

/-! The daemon: passes, inotify events, reload and the event loop.
Times are in nanoseconds of the monotonic clock.  What the operating system answers is
chosen by the environment of each action. -/
namespace Byssus

/-- `DEBOUNCE`. -/
def debounce : ℕ := 150*1000000
/-- `MAX_DEBOUNCE`. -/
def maxDebounce : ℕ := 1000*1000000
def nanosPerSec : ℕ := 1000000000

inductive Trigger
  | startup
  | inotify
  | resync
  | reload
  deriving DecidableEq

/-- Why a reload was rejected. -/
inductive ReloadError
  | load (issues : Issues)
  | stateDirChanged (current new : AbsPath)
  | paths (issues : Issues)
  | open (error : OpenGroupError)
  | propagation (error : String)
  | watch (error : String)
  | swap (error : String)

structure Daemon (H D : Type) where
  options : LoadOptions
  config : Config
  runtime : Runtime H
  watcher : Watcher
  world : World D
  degraded : Degraded
  uniqueSupported : Bool
  nextResync : Option ℕ
  /-- A pending pass for inotify events: the first change, and when it is due. -/
  pending : Option (ℕ × ℕ)
  lastReloadError : Option ReloadError
  unreadable : Finset Text

/-- What happens during a pass: the answers up to planning, the kernel's side of inotify, what
happens in each step, and how long it all takes. -/
structure PassAnswers (H K D : Type) where
  env : PassEnv H
  inotify : K
  steps : ℕ → StepEnv D
  elapsed : ℕ

/-- `Pass`. -/
structure Pass where
  observed : Observed
  plan : Plan
  results : List StepResult

/-- What happens during a reload, up to its own pass. -/
structure ReloadAnswers (H K : Type) where
  load : LoadEnv
  openEnv : OpenEnv H
  /-- The error of `check_propagation`. -/
  propagation : Option String
  inotify : K
  /-- The error of `swap_watcher`. -/
  swap : Option String
  elapsed : ℕ

variable {H K D : Type}

namespace Daemon

/-- What `pass` keeps of one note. -/
def recordNote (d : Daemon H D) : Note → Daemon H D
  | .membershipUnreadable group _ => {d with unreadable := insert group.display d.unreadable}
  | .setRootUnreadable set _ => {d with unreadable := insert (setLabel set.text) d.unreadable}
  | .membershipDeleted group =>
    {d with degraded := {d.degraded with groups := insert group d.degraded.groups}}
  | .setRootDeleted set =>
    {d with degraded := {d.degraded with sets := insert set d.degraded.sets}}
  | _ => d

/-- Notes change only what is degraded and unreadable. -/
theorem foldl_recordNote_frame (notes : List Note) (d : Daemon H D) :
    ∃ degraded unreadable, notes.foldl recordNote d =
      {d with degraded := degraded, unreadable := unreadable} := by
  induction notes generalizing d with
  | nil => exact ⟨d.degraded,d.unreadable,rfl⟩
  | cons note notes ih =>
    obtain ⟨degraded,unreadable,h⟩ := ih (recordNote d note)
    refine ⟨degraded,unreadable,?_⟩
    rw [List.foldl_cons,h]
    cases note <;> rfl

theorem mem_foldl_recordNote_groups (notes : List Note) (d : Daemon H D) (g : GroupId) :
    g ∈ (notes.foldl recordNote d).degraded.groups ↔
      g ∈ d.degraded.groups ∨ ∃ note ∈ notes, note = .membershipDeleted g := by
  apply Lists.foldl_or_iff (Q := fun d : Daemon H D => g ∈ d.degraded.groups)
  intro d note
  cases note <;> simp [recordNote]
  rw [or_comm,eq_comm]

theorem mem_foldl_recordNote_sets (notes : List Note) (d : Daemon H D) (s : Name) :
    s ∈ (notes.foldl recordNote d).degraded.sets ↔
      s ∈ d.degraded.sets ∨ ∃ note ∈ notes, note = .setRootDeleted s := by
  apply Lists.foldl_or_iff (Q := fun d : Daemon H D => s ∈ d.degraded.sets)
  intro d note
  cases note <;> simp [recordNote]
  rw [or_comm,eq_comm]

section
variable [DecidableEq D]

/-- `run_pass`: discovery, then the watches on what was found, and then the rest. -/
def runPass (sys : InotifySys K) (a : PassAnswers H K D) (d : Daemon H D) : Daemon H D × Pass :=
  let found := discoverAndObserve a.env d.runtime d.world.state d.degraded
  let plan := Byssus.plan (passInput a.env d.runtime d.world.state d.degraded)
  let done := execute a.steps d.uniqueSupported plan d.world
  ({d with
    runtime := found.1
    watcher := (Watcher.sync sys found.1 (d.watcher,a.inotify)).1
    world := done.2},⟨found.2,plan,done.1⟩)

/-- `Daemon::pass`, which ends at `now`. -/
def pass (sys : InotifySys K) (a : PassAnswers H K D) (now : ℕ) (d : Daemon H D) :
    Daemon H D × Pass :=
  let done := d.runPass sys a
  let noted := done.2.observed.notes.foldl recordNote {done.1 with unreadable := ∅}
  ({noted with
    nextResync := noted.config.daemon.resyncInterval.map fun s => now+s*nanosPerSec},done.2)

theorem pass_frame (sys : InotifySys K) (a : PassAnswers H K D) (now : ℕ) (d : Daemon H D) :
    (d.pass sys a now).1.pending = d.pending ∧
    (d.pass sys a now).1.config = d.config ∧
    (d.pass sys a now).1.uniqueSupported = d.uniqueSupported ∧
    (d.pass sys a now).1.runtime = (d.runPass sys a).1.runtime ∧
    (d.pass sys a now).1.watcher = (d.runPass sys a).1.watcher ∧
    (d.pass sys a now).1.world = (d.runPass sys a).1.world ∧
    (d.pass sys a now).1.nextResync =
      d.config.daemon.resyncInterval.map fun s => now+s*nanosPerSec := by
  obtain ⟨degraded,unreadable,h⟩ := foldl_recordNote_frame (d.runPass sys a).2.observed.notes
    {(d.runPass sys a).1 with unreadable := ∅}
  simp only [pass,h]
  exact ⟨rfl,rfl,rfl,trivial,trivial,trivial,rfl⟩

end

/-- The groups and sets that are lost. -/
def degrade (changes : Changes) (d : Daemon H D) : Daemon H D :=
  {d with degraded := ⟨d.degraded.groups ∪ changes.lost,d.degraded.sets ∪ changes.lostSets⟩}

/-- A pass is scheduled after the quiet period. -/
def schedule (now : ℕ) (d : Daemon H D) : Daemon H D :=
  let first := (d.pending.map Prod.fst).getD now
  {d with pending := some (first,min (now+debounce) (first+maxDebounce))}

/-- `handle_inotify`, at `now`. -/
def handleInotify (events : List InotifyEvent) (failed : Option Errno) (now : ℕ)
    (d : Daemon H D) : Except Errno (Daemon H D × Changes) :=
  match d.watcher.drain events failed with
  | .error e => .error e
  | .ok (changes,watcher) =>
    let d := degrade changes {d with watcher := watcher}
    .ok (if changes.membershipChanged || changes.overflow then d.schedule now else d,changes)

/-- `prepare_reload`. -/
def prepareReload (sys : InotifySys K) (a : ReloadAnswers H K) (d : Daemon H D) :
    Except ReloadError (Config × Runtime H × Watcher) := do
  let loaded ← (load a.load d.options).mapError .load
  let config := loaded.config
  if config.daemon.stateDir ≠ d.config.daemon.stateDir then
    throw (.stateDirChanged d.config.daemon.stateDir config.daemon.stateDir)
  let issues := checkPathsExist a.load config
  if hasErrors issues then throw (.paths (issues.filter fun i => i.severity = .error))
  let runtime ← (Runtime.open a.openEnv config).mapError .open
  match a.propagation with
  | some e => throw (.propagation e)
  | none =>
    let watcher ← (Watcher.new sys runtime a.inotify).1.mapError .watch
    return (config,runtime,watcher)

/-- `reload`: whether the new configuration was applied. -/
def reload (sys : InotifySys K) (a : ReloadAnswers H K) (d : Daemon H D) : Daemon H D × Bool :=
  match d.prepareReload sys a with
  | .error e => ({d with lastReloadError := some e},false)
  | .ok (config,runtime,watcher) =>
    match a.swap with
    | some e => ({d with lastReloadError := some (.swap e)},false)
    | none =>
      ({d with
        config := config
        runtime := runtime
        watcher := watcher
        degraded := ⟨∅,∅⟩
        lastReloadError := none},true)

/-- What a reload can do: it is rejected, or what was loaded and opened is put in place. -/
theorem reload_cases (sys : InotifySys K) (a : ReloadAnswers H K) (d : Daemon H D) :
    (∃ e, d.reload sys a = ({d with lastReloadError := some e},false)) ∨
      ∃ loaded runtime watcher, load a.load d.options = .ok loaded ∧
        Runtime.open a.openEnv loaded.config = .ok runtime ∧
        (Watcher.new sys runtime a.inotify).1 = .ok watcher ∧
        d.reload sys a = ({d with
          config := loaded.config
          runtime := runtime
          watcher := watcher
          degraded := ⟨∅,∅⟩
          lastReloadError := none},true) := by
  unfold reload
  cases hp : d.prepareReload sys a with
  | error e => exact .inl ⟨e,rfl⟩
  | ok ready =>
    cases hs : a.swap with
    | some e => exact .inl ⟨.swap e,rfl⟩
    | none =>
      right
      unfold prepareReload at hp
      cases hl : load a.load d.options with
      | error issues => rw [hl] at hp; cases hp
      | ok loaded =>
        simp only [hl,Except.mapError,bind,Except.bind] at hp
        split_ifs at hp
        cases ho : Runtime.open a.openEnv loaded.config with
        | error e => simp only [ho] at hp; cases hp
        | ok runtime =>
          simp only [ho,pure,Except.pure] at hp
          cases hprop : a.propagation with
          | some e => simp only [hprop] at hp; cases hp
          | none =>
            cases hw : (Watcher.new sys runtime a.inotify).1 with
            | error e => simp only [hprop,hw] at hp; cases hp
            | ok watcher =>
              simp only [hprop,hw] at hp
              cases hp
              exact ⟨loaded,runtime,watcher,rfl,ho,hw,rfl⟩

theorem handleInotify_ok {events : List InotifyEvent} {failed : Option Errno} {now : ℕ}
    {d d' : Daemon H D} {changes : Changes}
    (h : d.handleInotify events failed now = .ok (d',changes)) :
    ∃ watcher, d.watcher.drain events failed = .ok (changes,watcher) ∧
      d' = if changes.membershipChanged || changes.overflow then
          (degrade changes {d with watcher := watcher}).schedule now
        else degrade changes {d with watcher := watcher} := by
  unfold handleInotify at h
  cases hd : d.watcher.drain events failed with
  | error e => rw [hd] at h; cases h
  | ok r =>
    rw [hd] at h
    cases h
    exact ⟨r.2,rfl,rfl⟩

/-- The pass that is due at `now`, if any; a pending one comes first. -/
def duePass (now : ℕ) (d : Daemon H D) : Option Trigger :=
  if d.pending.any fun p => p.2 ≤ now then some .inotify
  else if d.nextResync.any fun due => due ≤ now then some .resync
  else none

theorem duePass_cases (now : ℕ) (d : Daemon H D) :
    (d.duePass now = some .inotify ∧ ∃ first due, d.pending = some (first,due) ∧ due ≤ now) ∨
      (∀ first due, d.pending = some (first,due) → now < due) ∧
        ((d.duePass now = some .resync ∧ ∃ r, d.nextResync = some r ∧ r ≤ now) ∨
          d.duePass now = none ∧ ∀ r, d.nextResync = some r → now < r) := by
  unfold duePass
  by_cases hp : (d.pending.any fun p => p.2 ≤ now) = true
  · left
    obtain ⟨p,hp',hle⟩ := (Option.any_eq_true _ _).mp hp
    exact ⟨if_pos hp,p.1,p.2,hp',of_decide_eq_true hle⟩
  · right
    rw [if_neg hp]
    constructor
    · intro first due h
      rw [h] at hp
      simpa using hp
    · by_cases hr : (d.nextResync.any fun due => due ≤ now) = true
      · obtain ⟨r,hr',hle⟩ := (Option.any_eq_true _ _).mp hr
        exact .inl ⟨if_pos hr,r,hr',of_decide_eq_true hle⟩
      · right
        refine ⟨if_neg hr,fun r h => ?_⟩
        rw [h] at hr
        simpa using hr

end Daemon

/-- What a start of the daemon loads, opens and watches before its first pass. -/
structure Startup (sys : InotifySys K) (H : Type) where
  options : LoadOptions
  env : LoadEnv
  loaded : Loaded
  load_eq : load env options = .ok loaded
  openEnv : OpenEnv H
  runtime : Runtime H
  open_eq : Runtime.open openEnv loaded.config = .ok runtime
  inotify : K
  watcher : Watcher
  new_eq : (Watcher.new sys runtime inotify).1 = .ok watcher

/-- What happened, in order. -/
inductive Happened
  | drained (time : ℕ) (changes : Changes)
  | passed (trigger : Trigger) (start : ℕ) (pass : Pass)
  | reloaded (applied : Bool)

/-- The event loop: the clock as last read, what happened since the start of the daemon, and
whether the loop has ended. -/
structure Loop (H D : Type) where
  daemon : Daemon H D
  clock : ℕ
  history : List Happened
  ended : Bool

/-- What the loop does in a wake-up: it handles signals and inotify events as `epoll_wait`
reports them, and then runs the pass that is due. -/
inductive LoopAction (H K D : Type)
  /-- `SIGHUP`, and the pass of a reload that succeeds. -/
  | hangup (reload : ReloadAnswers H K) (pass : PassAnswers H K D)
  | terminate
  | otherSignal
  | inotify (events : List InotifyEvent) (failed : Option Errno) (elapsed : ℕ)
  /-- The end of the wake-up. -/
  | due (elapsed : ℕ) (pass : PassAnswers H K D)
  /-- An error of `epoll_wait` or on reading signals. -/
  | failed

namespace Loop

variable [DecidableEq D]

/-- A pass clears what is pending. -/
def startPass (sys : InotifySys K) (trigger : Trigger) (a : PassAnswers H K D) (l : Loop H D) :
    Loop H D :=
  let clock := l.clock+a.elapsed
  let done := {l.daemon with pending := none}.pass sys a clock
  {l with daemon := done.1, clock := clock, history := l.history++[.passed trigger l.clock done.2]}

def act (sys : InotifySys K) (l : Loop H D) : LoopAction H K D → Loop H D
  | .hangup a p =>
    if l.ended then l else
    let done := l.daemon.reload sys a
    let l := {l with
      daemon := done.1
      clock := l.clock+a.elapsed
      history := l.history++[.reloaded done.2]}
    if done.2 then l.startPass sys .reload p else l
  | .terminate => {l with ended := true}
  | .otherSignal => l
  | .inotify events failed elapsed =>
    if l.ended then l else
    let clock := l.clock+elapsed
    match l.daemon.handleInotify events failed clock with
    | .error _ => {l with clock := clock, ended := true}
    | .ok (daemon,changes) =>
      {l with daemon := daemon, clock := clock, history := l.history++[.drained clock changes]}
  | .due elapsed p =>
    if l.ended then l else
    let l := {l with clock := l.clock+elapsed}
    match l.daemon.duePass l.clock with
    | none => l
    | some trigger => l.startPass sys trigger p
  | .failed => {l with ended := true}

/-- The daemon that started with a state, before its first pass. -/
def initial {sys : InotifySys K} (startup : Startup sys H) (world : World D) (unique : Bool)
    (clock : ℕ) : Loop H D :=
  ⟨⟨startup.options,startup.loaded.config,startup.runtime,startup.watcher,world,⟨∅,∅⟩,unique,none,
    none,none,∅⟩,clock,[],false⟩

/-- After its first pass. -/
def start {sys : InotifySys K} (startup : Startup sys H) (world : World D) (unique : Bool)
    (clock : ℕ) (a : PassAnswers H K D) : Loop H D :=
  startPass sys .startup a (initial startup world unique clock)

section
variable {sys : InotifySys K} (startup : Startup sys H) (world : World D) (unique : Bool)
  (clock : ℕ) (a : PassAnswers H K D)

theorem start_frame : (start startup world unique clock a).ended = false ∧
    (start startup world unique clock a).clock = clock+a.elapsed ∧
    (start startup world unique clock a).daemon.pending = none ∧
    (start startup world unique clock a).daemon.watcher = (Watcher.sync sys
      (discoverAndObserve a.env startup.runtime world.state ⟨∅,∅⟩).1
        (startup.watcher,a.inotify)).1 ∧
    (start startup world unique clock a).daemon.nextResync =
      (startup.loaded.config.daemon.resyncInterval.map fun s =>
        clock+a.elapsed+s*nanosPerSec) ∧
    (start startup world unique clock a).daemon.runtime =
      (startup.runtime.discover a.env.toScanEnv ∅).1 := by
  obtain ⟨hpending,-,-,hruntime,hwatcher,-,hresync⟩ := Daemon.pass_frame sys a (clock+a.elapsed)
    {(initial startup world unique clock).daemon with pending := none}
  exact ⟨rfl,rfl,hpending,hwatcher,hresync,hruntime⟩

end

/-- The actions of the wake-ups, one after another.  Each wake-up ends with `due`; here the
actions may come in any order. -/
def run (sys : InotifySys K) (l : Loop H D) (actions : List (LoopAction H K D)) : Loop H D :=
  actions.foldl (act sys) l

/-- One part of an action; the passes are those that `ok` admits. -/
inductive Small (sys : InotifySys K) (ok : Loop H D → PassAnswers H K D → Prop) (l : Loop H D) :
    Loop H D → Prop
  | wait (elapsed : ℕ) (ended : Bool) :
      Small sys ok l {l with clock := l.clock+elapsed, ended := ended}
  | reload (a : ReloadAnswers H K) : Small sys ok l {l with
      daemon := (l.daemon.reload sys a).1
      clock := l.clock+a.elapsed
      history := l.history++[.reloaded (l.daemon.reload sys a).2]}
  | drain {events : List InotifyEvent} {failed : Option Errno} {elapsed : ℕ} {daemon : Daemon H D}
      {changes : Changes}
      (h : l.daemon.handleInotify events failed (l.clock+elapsed) = .ok (daemon,changes)) :
      Small sys ok l {l with
        daemon := daemon
        clock := l.clock+elapsed
        history := l.history++[.drained (l.clock+elapsed) changes]}
  | pass (trigger : Trigger) (a : PassAnswers H K D) (h : ok l a) :
      Small sys ok l (l.startPass sys trigger a)

/-- The loops that such parts lead to. -/
abbrev Reaches (sys : InotifySys K) (ok : Loop H D → PassAnswers H K D → Prop) :
    Loop H D → Loop H D → Prop :=
  Relation.ReflTransGen (Small sys ok)

/-- Any pass. -/
abbrev anyPass (_ : Loop H D) (_ : PassAnswers H K D) : Prop := True

/-- An action is made of such parts. -/
theorem act_reaches (sys : InotifySys K) (l : Loop H D) (action : LoopAction H K D) :
    Reaches sys anyPass l (l.act sys action) := by
  have hend : Small sys anyPass l {l with ended := true} := .wait 0 true
  by_cases he : l.ended = true
  · cases action <;> simp only [act,he,if_true] <;> first | exact .refl | exact .single hend
  · have hlater : ∀ elapsed, Small sys anyPass l {l with clock := l.clock+elapsed} := by
      intro elapsed
      have h : Small sys anyPass l {l with clock := l.clock+elapsed, ended := false} := .wait elapsed false
      rwa [← Bool.eq_false_iff.mpr he] at h
    cases action with
    | hangup a p =>
      simp only [act,if_neg he]
      split_ifs
      · exact .tail (.single (.reload a)) (.pass .reload p trivial)
      · exact .single (.reload a)
    | terminate => exact .single hend
    | otherSignal => exact .refl
    | inotify events failed elapsed =>
      simp only [act,if_neg he]
      cases hd : l.daemon.handleInotify events failed (l.clock+elapsed) with
      | error e => exact .single (.wait elapsed true)
      | ok r => exact .single (.drain hd)
    | due elapsed p =>
      simp only [act,if_neg he]
      cases l.daemon.duePass (l.clock+elapsed) with
      | none => exact .single (hlater elapsed)
      | some trigger => exact .tail (.single (hlater elapsed)) (.pass trigger p trivial)
    | failed => exact .single hend

/-- The run rule: what every part of an action keeps, a run keeps. -/
theorem run_induction {P : Loop H D → Prop} {l : Loop H D} (h : P l)
    (hP : ∀ l l', P l → Small sys anyPass l l' → P l') (actions : List (LoopAction H K D)) :
    P (l.run sys actions) := by
  apply Lists.foldl_induction (P := fun _ l => P l) h
  intro _ action l hl
  have hsmall := act_reaches sys l action
  generalize l.act sys action = l' at hsmall ⊢
  induction hsmall with
  | refl => exact hl
  | tail _ hs ih => exact hP _ _ ih hs

end Loop
end Byssus
