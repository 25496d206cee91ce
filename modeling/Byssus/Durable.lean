import Byssus.Coherent
import Byssus.Library.Hoare
import Byssus.StateFile

/-! What the daemon keeps can be read back.  Every record that a run makes is one that the state
file can hold, so a restart begins with the records that the life before it left on disk. -/
namespace Byssus

open Program Prog

variable {D H K : Type}

/-! ### Records that can be stored -/

/-- Every record can be stored. -/
def State.Storable (s : State) : Prop := ∀ r ∈ s.records, r.Storable

namespace State.Storable

variable {s : State} {r : MountRecord}

theorem empty : State.empty.Storable := by
  intro r hr
  rw [mem_records,get_empty] at hr
  cases hr

theorem insert (h : s.Storable) (hr : r.Storable) : (s.insert r).1.Storable := by
  intro q hq
  rw [mem_records,get_insert] at hq
  split_ifs at hq
  · cases hq
    exact hr
  · exact h q (mem_records.mpr hq)

theorem remove (h : s.Storable) (k : RecordKey) : (s.remove k).Storable := by
  intro q hq
  rw [mem_records,get_remove] at hq
  split_ifs at hq
  exact h q (mem_records.mpr hq)

theorem get (h : s.Storable) {k : RecordKey} (hr : s.get k = some r) : r.Storable :=
  h r (mem_records_of_get hr)

theorem of_decode {f : FileFormat} {bytes : List UInt8} (h : f.decode bytes = .ok s) :
    s.Storable := by
  obtain ⟨value,doc,-,hdoc,hloop⟩ := FileFormat.decode_ok h
  obtain ⟨hclean,-,-,hget⟩ := FileFormat.foldlM_insertDecoded_iff.mp hloop
  intro r hr
  have hmem : r ∈ doc.mounts := by
    have hr := (hget r.key r).mp (mem_records.mp hr)
    simpa using hr
  obtain ⟨hgroup,hrange⟩ := FileFormat.readDocument_inv hdoc r hmem
  exact ⟨hgroup,(hclean r hmem).1,(hclean r hmem).2,hrange⟩

end State.Storable

/-! ### What an execution keeps -/

/-- The kernel's answers of a step fit their integer types. -/
structure StepEnv.InRange (env : StepEnv D) : Prop where
  mntId : env.mntId < 2^64
  mntIdUnique : ∀ id, env.mntIdUnique = some id → id < 2^64
  devMajor : env.source.devMajor < 2^32
  devMinor : env.source.devMinor < 2^32
  ino : env.source.ino < 2^64

/-- The records in memory and on disk can be stored. -/
def World.Storable (w : World D) : Prop := w.state.Storable ∧ w.disk.Storable

section
variable {env : StepEnv D} {unique : Bool}

theorem StepEnv.InRange.read (h : env.InRange) (d : DesiredMount) :
    ((env.newMount d).readIdentity unique).InRange where
  mntId := h.mntId
  mntIdUnique := by
    intro id hid
    simp only [Mount.readIdentity,StepEnv.newMount] at hid
    split_ifs at hid
    exact h.mntIdUnique id hid
  devMajor := h.devMajor
  devMinor := h.devMinor
  ino := h.ino

theorem syscall_keeps (op : Op) :
    Keeps World.Storable (syscall env op : Exec D Unit) fun _ => True := by
  intro w hw
  have hrun : ∀ r v, (syscall env op : Exec D Unit).run w = (r,v) → World.Storable v := by
    intro r v h
    simp only [syscall,run] at h
    cases hf : env.fault op <;> rw [hf] at h <;> cases h <;> exact hw
  exact ⟨fun _ v h => ⟨hrun _ v h,trivial⟩,fun _ v h => hrun _ v h⟩

theorem save_keeps : Keeps World.Storable (save env) fun _ => True := by
  refine .bind (syscall_keeps .saveFile) fun _ _ => ?_
  exact .bind (.modify fun w hw => ⟨hw.1,hw.1⟩) fun _ _ => syscall_keeps .syncDir

theorem persist_keeps : Keeps World.Storable (persist env) fun _ => True := .mapError save_keeps

theorem insertRecord_keeps {record : MountRecord} (h : record.Storable) :
    Keeps World.Storable (insertRecord record : Exec D (Option MountRecord))
      fun previous => ∀ r, previous = some r → r.Storable := by
  intro w hw
  refine ⟨fun previous v hv => ?_,fun e v hv => nomatch hv⟩
  cases hv
  exact ⟨⟨hw.1.insert h,hw.2⟩,fun r hr => hw.1.get hr⟩

theorem restore_storable {w : World D} (hw : w.Storable) (key : RecordKey)
    {previous : Option MountRecord} (hp : ∀ r, previous = some r → r.Storable) :
    (restore key previous w).Storable := by
  cases previous with
  | none => exact ⟨hw.1.remove key,hw.2⟩
  | some r => exact ⟨hw.1.insert (hp r rfl),hw.2⟩

variable [DecidableEq D]

theorem createBind_keeps (h : env.InRange) (target : Fd D) (d : DesiredMount) :
    Keeps World.Storable (createBind env target d unique) MountIdentity.InRange := by
  refine .bind (syscall_keeps .openTree) fun _ _ => ?_
  refine .bind (syscall_keeps .setAttr) fun _ _ => ?_
  refine .bind (syscall_keeps .moveMount) fun _ _ => ?_
  refine .bind (.modify fun w hw => hw) fun _ _ => ?_
  refine .bind (syscall_keeps .readIdentity) fun _ _ => ?_
  exact .bind (.modify fun w hw => hw) fun _ _ => .pure (h.read d)

theorem unmountVerified_keeps (op : Op) (target : Location) (expected : MountIdentity) :
    Keeps World.Storable (unmountVerified env op target expected unique) fun _ => True := by
  refine .bind (.mapError (syscall_keeps op)) fun _ _ => ?_
  refine .bind (Q := fun _ => True) (.gets fun _ _ => trivial) fun fd _ => ?_
  refine .bind (Q := fun _ => True) (.ofExcept fun _ _ => trivial) fun m _ => ?_
  exact .modify fun w hw => hw

theorem tryMount_keeps (h : env.InRange) {d : DesiredMount} (hd : d.Interpolated) :
    Keeps World.Storable (tryMount env unique d) fun _ => True := by
  refine .bind (syscall_keeps .sourceRoot) fun _ _ => ?_
  refine .bind (.mapError (syscall_keeps .resolveSource)) fun _ _ => ?_
  refine .bind (syscall_keeps .targetRoot) fun _ _ => ?_
  have hensure : Keeps World.Storable (ensureDirsBeneath env) fun _ => True :=
    .bind (syscall_keeps .ensureDirs) fun _ _ => .gets fun _ _ => trivial
  refine .bind (.mapError hensure) fun target _ => ?_
  have hroot : Keeps World.Storable (isMountRoot env target) fun _ => True :=
    .bind (syscall_keeps .isMountRoot) fun _ _ => .pure trivial
  refine .bind (.mapError hroot) fun occupied _ => ?_
  split_ifs
  · exact .fail
  · refine .bind (createBind_keeps h target d) fun identity hid => ?_
    refine .bind (insertRecord_keeps (newRecord_storable hd hid)) fun previous hp => ?_
    refine .bind (.attempt persist_keeps) fun saved _ => ?_
    cases saved with
    | ok _ => exact .pure trivial
    | error e =>
      refine .bind (.modify fun w hw => restore_storable hw d.key hp) fun _ _ => ?_
      refine .bind (syscall_keeps .rollbackRoot) fun _ _ => ?_
      refine .bind (.attempt (unmountVerified_keeps .rollback d.target identity)) fun r _ => ?_
      cases r <;> exact .fail

theorem tryUnmount_keeps (record : MountRecord) :
    Keeps World.Storable (tryUnmount env unique record) fun _ => True := by
  refine .bind (syscall_keeps .unmountRoot) fun _ _ => ?_
  refine .bind (.mapError (unmountVerified_keeps .unmount record.targetLocation record.identity))
    fun _ _ => ?_
  refine .bind (.modify fun w hw => ⟨hw.1.remove record.key,hw.2⟩) fun _ _ => ?_
  refine .bind (.attempt persist_keeps) fun persisted _ => ?_
  refine .bind (.attempt (syscall_keeps .removeTargetDir)) fun _ _ => ?_
  exact .ofExcept fun _ _ => trivial

theorem runAction_keeps (h : env.InRange) {action : Action}
    (hd : ∀ d, action = .mount d → d.Interpolated) :
    Keeps World.Storable (runAction env unique action) fun _ => True := by
  cases action with
  | mount d => exact tryMount_keeps h (hd d rfl)
  | unmount record reason => exact tryUnmount_keeps record
  | dropRecord record reason =>
    exact .bind (.modify fun w hw => ⟨hw.1.remove record.key,hw.2⟩) fun _ _ => persist_keeps

end

theorem execute_storable [DecidableEq D] {env : ℕ → StepEnv D} (h : ∀ i, (env i).InRange)
    {unique : Bool} {plan : Plan}
    (hplan : ∀ d, Action.mount d ∈ plan.steps.map Step.action → d.Interpolated) {w : World D}
    (hw : w.Storable) : (execute env unique plan w).2.Storable := by
  refine execute_induction (P := fun _ _ w => w.Storable) hw (fun _ _ _ _ _ _ hw => hw) ?_
  intro i step results w r v hs _ hw _ hr
  have hd : ∀ d, step.action = .mount d → d.Interpolated := fun d hd =>
    hplan d (hd ▸ List.mem_map_of_mem (List.mem_of_getElem? hs))
  have hv : ((runAction (env i) unique step.action).run w).2.Storable :=
    (runAction_keeps (h i) hd).state hw
  rwa [hr] at hv

/-! ### Lives of the daemon -/

theorem Config.Declares.valid {config : Config} (hk : config.Keyed) {g : GroupConfig}
    (h : config.Declares g) : g.name.Valid := by
  cases h with
  | static hc =>
    rw [hk.groups _ _ hc]
    rfl
  | @found name set path hlen g hset hg =>
    rw [(GroupSetConfig.group_ok hg).2.2.1]
    exact ⟨hlen ▸ set.depth_pos,hlen ▸ set.depth_le_maxSetDepth⟩

theorem Daemon.Coherent.plan_interpolated {d : Daemon H D} (h : d.Coherent) {env : PassEnv H}
    {m : DesiredMount} (hm : Action.mount m ∈
      (plan (passInput env d.runtime d.world.state d.degraded)).steps.map Step.action) :
    m.Interpolated := by
  obtain ⟨-,g,found,hpresent,-,-,hok⟩ := mem_desired.mp ((plan_mount_iff _ m).mp hm).1.mem
  have hg := discover_present.mpr hpresent
  refine desiredMount_interpolated ?_ hok
  rw [← Runtime.groups_keyed _ _ _ hg]
  exact ((h.opens.discover _ _).declared _ _ hg).valid h.keyed

/-- The kernel's answers fit their integer types. -/
def PassAnswers.InRange (a : PassAnswers H K D) : Prop := ∀ i, (a.steps i).InRange

/-- What a life keeps: its parts belong together and its records can be stored. -/
structure Loop.Sound (l : Loop H D) : Prop where
  coherent : l.daemon.Coherent
  storable : l.daemon.world.Storable

section
variable [DecidableEq D] {sys : InotifySys K}

theorem Daemon.pass_storable {d : Daemon H D} (hd : d.Coherent) (hw : d.world.Storable)
    {a : PassAnswers H K D} (ha : a.InRange) (now : ℕ) :
    (d.pass sys a now).1.world.Storable := by
  rw [(Daemon.pass_frame sys a now d).2.2.2.2.2.1]
  simp only [Daemon.runPass]
  refine execute_storable ha ?_ hw
  exact fun m hm => hd.plan_interpolated hm

theorem Loop.Sound.startPass {l : Loop H D} (h : l.Sound) (trigger : Trigger)
    {a : PassAnswers H K D} (ha : a.InRange) : (l.startPass sys trigger a).Sound := by
  have hd : ({l.daemon with pending := none} : Daemon H D).Coherent :=
    h.coherent.congr rfl rfl rfl h.coherent.watches
  have hw : ({l.daemon with pending := none} : Daemon H D).world.Storable := h.storable
  exact ⟨hd.pass a _,Daemon.pass_storable hd hw ha _⟩

theorem Loop.Sound.small {l l' : Loop H D} (h : l.Sound)
    (hs : Loop.Small sys (fun _ a => a.InRange) l l') : l'.Sound := by
  cases hs with
  | wait elapsed ended => exact ⟨h.coherent,h.storable⟩
  | reload a =>
    refine ⟨h.coherent.reload a,?_⟩
    rcases l.daemon.reload_cases sys a with ⟨e,he⟩ | ⟨loaded,runtime,watcher,-,-,-,he⟩
    · simp only [he]
      exact h.storable
    · simp only [he]
      exact h.storable
  | drain hd =>
    refine ⟨h.coherent.handleInotify hd,?_⟩
    obtain ⟨watcher,-,rfl⟩ := Daemon.handleInotify_ok hd
    split_ifs
    · exact h.storable
    · exact h.storable
  | pass trigger a ha => exact h.startPass trigger ha

theorem Loop.Sound.start (startup : Startup sys H) {world : World D} (hw : world.Storable)
    (unique : Bool) (clock : ℕ) {a : PassAnswers H K D} (ha : a.InRange) :
    (Loop.start startup world unique clock a).Sound := by
  have hpair : Watcher.new sys startup.runtime startup.inotify =
      (.ok startup.watcher,(Watcher.new sys startup.runtime startup.inotify).2) :=
    Prod.ext startup.new_eq rfl
  refine startPass (l := .initial startup world unique clock) ⟨?_,hw⟩ .startup ha
  exact Daemon.Coherent.started startup.load_eq startup.open_eq hpair rfl rfl rfl rfl

/-- The end of `run`: the records are saved once more, and an error of that is only logged. -/
def Loop.shutdown (l : Loop H D) (env : StepEnv D) : Loop H D :=
  {l with daemon := {l.daemon with world := ((save env).run l.daemon.world).2}}

/-- The daemon over its lives.  A life begins with the state that the file of the life before it
decodes to, or with an empty one where there is no file; it goes on in any way and may end at any
point, or with a shutdown when its loop has ended; and in between others may change the mounts. -/
inductive Lives (f : FileFormat) (sys : InotifySys K) : Loop H D → Prop
  | first (startup : Startup sys H) (table : Table D) (unique : Bool) (clock : ℕ)
      {a : PassAnswers H K D} (ha : a.InRange) :
      Lives f sys (Loop.start startup ⟨table,.empty,.empty,[]⟩ unique clock a)
  | step {l l' : Loop H D} (hl : Lives f sys l)
      (hs : Loop.Small sys (fun _ a => a.InRange) l l') : Lives f sys l'
  | shutdown {l : Loop H D} (hl : Lives f sys l) (hended : l.ended = true) (env : StepEnv D) :
      Lives f sys (l.shutdown env)
  | restart {l : Loop H D} {s : State} (hl : Lives f sys l)
      (hd : f.decode (f.encode l.daemon.world.disk) = .ok s) (startup : Startup sys H)
      (table : Table D) (unique : Bool) (clock : ℕ) {a : PassAnswers H K D} (ha : a.InRange) :
      Lives f sys (Loop.start startup ⟨table,s,s,[]⟩ unique clock a)

omit [DecidableEq D] in
theorem Loop.Sound.shutdown {l : Loop H D} (h : l.Sound) (env : StepEnv D) :
    (l.shutdown env).Sound :=
  ⟨h.coherent.congr rfl rfl rfl h.coherent.watches,save_keeps.state h.storable⟩

theorem Lives.sound {f : FileFormat} {l : Loop H D} (h : Lives f sys l) : l.Sound := by
  induction h with
  | first startup table unique clock ha => exact .start startup ⟨.empty,.empty⟩ unique clock ha
  | step _ hs ih => exact ih.small hs
  | shutdown _ _ env ih => exact ih.shutdown env
  | restart _ hd startup table unique clock ha =>
    exact .start startup ⟨.of_decode hd,.of_decode hd⟩ unique clock ha

/-- At any point of any life, the file that was written last decodes to just the records that were
saved, and a save of the records in memory would too: a restart loses and changes nothing. -/
theorem lives_read_back {f : FileFormat} {l : Loop H D} (h : Lives f sys l) {s : State}
    (hs : s = l.daemon.world.disk ∨ s = l.daemon.world.state) (hf : f.ReadsBack s.document) :
    f.decode (f.encode s) = .ok s := by
  refine FileFormat.storable_round_trip hf ?_
  rcases hs with rfl | rfl
  · exact h.sound.storable.2
  · exact h.sound.storable.1

end

/-! A life in which the mount of one member is made and recorded. -/
namespace SampleLife

open SampleStateFile

def rawGroup : RawGroup where
  sourceRoot := "/srv/example/projects".toList
  source := "\x7bname\x7d/workspace".toList
  targetRoot := "/srv/example/groups/view".toList
  target := "\x7bname\x7d".toList
  membership := "/srv/example/groups/members".toList
  readOnly := none
  noexec := none
  nosymfollow := none

def rawFile : RawFile := ⟨none,(∅ : Std.ExtTreeMap Text RawGroup).insert "research".toList rawGroup,∅⟩

/-- The main file declares the group, and every path is a directory of root. -/
def loadEnv : LoadEnv := {TargetBeneath.env with parse := fun _ => .ok rawFile}

def loaded : Loaded := (load loadEnv TargetBeneath.options).toOption.get (by decide +kernel)

theorem load_eq : load loadEnv TargetBeneath.options = .ok loaded :=
  Program.ok_of_toOption (Option.some_get _).symm

def openEnv : OpenEnv ℕ := ⟨fun _ => .ok (),fun _ => .ok 0⟩

def runtime : Runtime ℕ := (Runtime.open openEnv loaded.config).toOption.get (by decide +kernel)

def sys : InotifySys ℕ := ⟨fun _ _ k => (.ok k,k+1),fun _ k => k,fun _ => ""⟩

def watcher : Watcher := (Watcher.new sys runtime 0).1.toOption.get (by decide +kernel)

def startup : Startup sys ℕ where
  options := TargetBeneath.options
  env := loadEnv
  loaded := loaded
  load_eq := load_eq
  openEnv := openEnv
  runtime := runtime
  open_eq := Program.ok_of_toOption (Option.some_get _).symm
  inotify := 0
  watcher := watcher
  new_eq := Program.ok_of_toOption (Option.some_get _).symm

/-- The membership directory lists the member, and its project is there. -/
def passEnv : PassEnv ℕ where
  readDir := fun _ => .ok ([member.text.map fun c => c.toNat.toUInt8],none)
  statx := fun _ _ => .ok (.regular 0)
  openDir := fun _ _ => .ok 1
  isDeleted := fun _ => .ok false
  strerror := fun _ => ""
  rootError := fun _ => none
  resolveDir := fun _ => .ok identity.root
  inspect := fun _ => .notMounted

def stepEnv : StepEnv Unit where
  before := fun _ => id
  fault := fun _ => none
  dir := fun _ => ()
  source := identity.root
  mntId := identity.mntId
  mntIdUnique := identity.mntIdUnique
  inherited := ⟨false,false,false,false,false⟩
  now := createdAt

def answers : PassAnswers ℕ ℕ Unit := ⟨passEnv,0,fun _ => stepEnv,0⟩

theorem stepEnv_inRange : stepEnv.InRange :=
  ⟨by decide,by decide +revert,by decide,by decide,by decide⟩

theorem inRange : answers.InRange := fun _ => stepEnv_inRange

def life : Loop ℕ Unit := .start startup ⟨fun _ => [],.empty,.empty,[]⟩ true 0 answers

/-- The life after its end: the records of its pass are saved again. -/
def stopped : Loop ℕ Unit := Loop.shutdown {life with ended := true} stepEnv

theorem stopped_document : stopped.daemon.world.disk.document = document := by decide +kernel

theorem stopped_lives : Lives format sys stopped :=
  .shutdown (.step (.first startup (fun _ => []) true 0 inRange) (.wait 0 true)) rfl stepEnv

theorem lives_read_back_run :
    format.decode (format.encode stopped.daemon.world.disk) = .ok stopped.daemon.world.disk :=
  lives_read_back stopped_lives (.inl rfl) (by rw [stopped_document,← state_document]; exact readsBack)

end SampleLife
end Byssus
