import Byssus.Durable
import Byssus.TargetDirs

/-! Executing a plan where the directories are: every path is walked, and directories are made and
removed, call by call.  Such an execution is one of `execute`, with the directories and errors that
the walks come to. -/
namespace Byssus

open Program Prog DirTree

namespace OnTree

abbrev TreeProg (α : Type) := Prog TreeWorld String α

/-- A program that walks no path. -/
def lift {ε α : Type} (x : Prog (World Place) ε α) : Prog TreeWorld ε α := fun w =>
  ((x.run w.world).1,{w with world := (x.run w.world).2})

section
variable (env : TreeEnv)

/-- `mount::unmount_verified`. -/
def unmountVerified (target : Location) (expected : MountIdentity) (unique : Bool) :
    Prog TreeWorld VerifiedOpError Unit := do
  let fd ← (resolveDir env (env.root target.root) target.path).mapError fun e =>
    .io (env.strerror e)
  let m ← ofExcept (fd.verified expected unique)
  lift (modify fun w => {w with
    table := w.table.detach fd.dir
    trace := w.trace ++ [.umount target fd.dir m (w.table fd.dir)]})

/-- `try_mount`. -/
def tryMount (unique : Bool) (d : DesiredMount) : TreeProg Unit := do
  let atTarget := fun e => "target " ++ d.target.text ++ ": " ++ e
  lift (syscall env.base .sourceRoot)
  let source ← ((resolveDir env (env.root d.source.root) d.source.path).mapError
    env.strerror).mapError fun e => "source " ++ d.source.text ++ ": " ++ e
  lift (syscall env.base .targetRoot)
  let target ← ((ensureDirs env (env.root d.target.root) (d.target.path.splitOn '/')).mapError
    env.strerror).mapError atTarget
  let occupied ← (lift (isMountRoot env.base target)).mapError atTarget
  if occupied then
    fail ("target " ++ d.target.text ++ " became occupied by another mount")
  else
    let base := {env.base with source := source.place.2}
    let identity ← lift (createBind base target d unique)
    let previous ← lift (insertRecord (newRecord d identity base.now))
    let saved ← (lift (persist base)).attempt
    match saved with
    | .ok () => pure ()
    | .error saveError =>
      lift (modify (restore d.key previous))
      lift (syscall base .rollbackRoot)
      let rollback ← (unmountVerified env d.target identity unique).attempt
      match rollback with
      | .ok () => fail (saveError ++ "; mount rolled back")
      | .error e => fail (saveError ++ "; rollback unmount also failed: " ++ e.message)

/-- `remove_target_dir`. -/
def removeTargetDir (target : Location) : TreeProg Unit := do
  let (parent,leaf) := match rsplitOnce target.path with
    | some (parent,leaf) => (some parent,leaf)
    | none => (none,target.path)
  lift (syscall env.base .removeTargetDir)
  let _ ← (removeEmptyDir env (env.root target.root) parent leaf).mapError env.strerror
  pure ()

/-- `try_unmount`. -/
def tryUnmount (unique : Bool) (record : MountRecord) : TreeProg Unit := do
  lift (syscall env.base .unmountRoot)
  (unmountVerified env record.targetLocation record.identity unique).mapError unmountError
  lift (modify fun w => {w with state := w.state.remove record.key})
  let persisted ← (lift (persist env.base)).attempt
  let _ ← ((removeTargetDir env record.targetLocation).attempt : TreeProg (Except String Unit))
  ofExcept persisted

def runAction (unique : Bool) : Action → TreeProg Unit
  | .mount d => tryMount env unique d
  | .unmount record _ => tryUnmount env unique record
  | .dropRecord record _ => lift (dropRecord env.base record)

end

/-- One iteration of `execute`. -/
def executeStep (env : ℕ → TreeEnv) (unique : Bool) (acc : List StepResult × TreeWorld)
    (step : Step) : List StepResult × TreeWorld :=
  let (results,w) := acc
  if step.dependsOn.any fun i => results[i]? ≠ some .done then (results ++ [.skipped],w)
  else
    let (result,w) := (runAction (env results.length) unique step.action).run w
    (results ++ [intoResult result],w)

/-- `execute`. -/
def execute (env : ℕ → TreeEnv) (unique : Bool) (plan : Plan) (w : TreeWorld) :
    List StepResult × TreeWorld :=
  plan.steps.foldl (executeStep env unique) ([],w)

end OnTree

/-! ### Environments, operation by operation -/

section
variable {D : Type}

/-- The environments treat these operations alike. -/
def StepEnv.AgreeOn (ops : List Op) (e e' : StepEnv D) : Prop :=
  ∀ op ∈ ops, e.before op = e'.before op ∧ e.fault op = e'.fault op ∧ e.dir op = e'.dir op

/-- The operations are treated as in the first environment, and all others as in the second. -/
def StepEnv.override (ops : List Op) (e e' : StepEnv D) : StepEnv D :=
  {e' with
    before := fun op => if op ∈ ops then e.before op else e'.before op
    fault := fun op => if op ∈ ops then e.fault op else e'.fault op
    dir := fun op => if op ∈ ops then e.dir op else e'.dir op}

/-- The same answers about a new mount, but for what it shows. -/
structure StepEnv.MountsLike (base e : StepEnv D) : Prop where
  mntId : e.mntId = base.mntId
  mntIdUnique : e.mntIdUnique = base.mntIdUnique
  inherited : e.inherited = base.inherited
  now : e.now = base.now

/-- The operations of the second environment, and the new mount of the first. -/
def StepEnv.mounting (base e : StepEnv D) (source : DevIno) : StepEnv D :=
  {base with before := e.before, fault := e.fault, dir := e.dir, source}

variable {ops ops' : List Op} {e e' f : StepEnv D}

theorem StepEnv.mounting_mountsLike {base : StepEnv D} {source : DevIno} :
    base.MountsLike (base.mounting e source) := ⟨rfl,rfl,rfl,rfl⟩

theorem StepEnv.mounting_agreeOn {base : StepEnv D} {source : DevIno} :
    (base.mounting e source).AgreeOn ops e := fun _ _ => ⟨rfl,rfl,rfl⟩

theorem StepEnv.AgreeOn.mono (h : e.AgreeOn ops e') (hops : ops' ⊆ ops) : e.AgreeOn ops' e' :=
  fun op hop => h op (hops hop)

theorem StepEnv.AgreeOn.trans (h : e.AgreeOn ops e') (h' : e'.AgreeOn ops f) : e.AgreeOn ops f := by
  intro op hop
  obtain ⟨hb,hf,hd⟩ := h op hop
  obtain ⟨hb',hf',hd'⟩ := h' op hop
  exact ⟨hb.trans hb',hf.trans hf',hd.trans hd'⟩

theorem StepEnv.override_left : (e.override ops e').AgreeOn ops e :=
  fun op hop => by simp [override,hop]

theorem StepEnv.override_right (h : ∀ op ∈ ops, op ∉ ops') :
    (e.override ops e').AgreeOn ops' e' := by
  intro op hop
  have hn : op ∉ ops := fun ho => h op ho hop
  simp [override,hn]

theorem syscall_congr (h : e.AgreeOn ops e') {op : Op} (hop : op ∈ ops) :
    (syscall e op : Exec D Unit) = syscall e' op := by
  obtain ⟨hb,hf,-⟩ := h op hop
  funext w
  simp only [syscall,hb,hf]

theorem persist_congr (h : e.AgreeOn ops e') (h₁ : .saveFile ∈ ops) (h₂ : .syncDir ∈ ops) :
    persist e = persist e' := by
  unfold persist save
  rw [syscall_congr h h₁,syscall_congr h h₂]

theorem isMountRoot_congr (h : e.AgreeOn ops e') (h₁ : .isMountRoot ∈ ops) (fd : Fd D) :
    isMountRoot e fd = isMountRoot e' fd := by
  unfold isMountRoot
  rw [syscall_congr h h₁]

theorem createBind_congr [DecidableEq D] {base : StepEnv D} (h : e.AgreeOn ops base)
    (hc : base.MountsLike e) (hops : [.openTree,.setAttr,.moveMount,.readIdentity] ⊆ ops)
    (target : Fd D) (d : DesiredMount) (unique : Bool) :
    createBind e target d unique = createBind {base with source := e.source} target d unique := by
  have hnew : e.newMount d = ({base with source := e.source} : StepEnv D).newMount d := by
    simp [StepEnv.newMount,hc.mntId,hc.mntIdUnique,hc.inherited]
  have hcall : ∀ op ∈ ops, (syscall e op : Exec D Unit) = syscall {base with source := e.source} op :=
    fun op hop => syscall_congr h hop
  unfold createBind
  rw [hcall _ (hops (by simp)),hcall _ (hops (by simp)),hcall _ (hops (by simp)),
    hcall _ (hops (by simp)),hnew]

end

/-! ### One program follows another -/

namespace OnTree

section
variable {ε ε' α α' β β' : Type} {c : StepEnv Place → Prop} {ops ops' : List Op} {w : TreeWorld}
  {x : Prog TreeWorld ε α} {y : StepEnv Place → Prog (World Place) ε β} {φ : α → β}

/-- From `w` the first program ends as the second one does, in every environment of `c` that treats
`ops` in a certain way. -/
def Follows (c : StepEnv Place → Prop) (ops : List Op) (w : TreeWorld) (x : Prog TreeWorld ε α)
    (y : StepEnv Place → Prog (World Place) ε β) (φ : α → β) : Prop :=
  ∃ e : StepEnv Place, ∀ e' : StepEnv Place, e'.AgreeOn ops e → c e' →
    (y e').run w.world = ((x.run w).1.map φ,(x.run w).2.world)

/-- An environment that treats all operations alike. -/
def answering (table : Table Place) (fault : Option String) (dir : Place) : StepEnv Place where
  before := fun _ _ => table
  fault := fun _ => fault
  dir := fun _ => dir
  source := dir.2
  mntId := 0
  mntIdUnique := none
  inherited := ⟨false,false,false,false,false⟩
  now := 0

theorem map_id_eq (r : Except ε α) : r.map id = r := by cases r <;> rfl

theorem Follows.mono (h : Follows c ops w x y φ) (hops : ops ⊆ ops') : Follows c ops' w x y φ := by
  obtain ⟨e,he⟩ := h
  exact ⟨e,fun e' h' => he e' (h'.mono hops)⟩

/-- What runs later uses operations of its own. -/
theorem Follows.bind (ops : List Op) {f : α → Prog TreeWorld ε α'} {g : StepEnv Place → β → Prog (World Place) ε β'}
    {ψ : α' → β'} (hx : Follows c ops w x y φ)
    (hf : ∀ a u, x.run w = (.ok a,u) → Follows c ops' u (f a) (fun e => g e (φ a)) ψ)
    (hd : ∀ op ∈ ops, op ∉ ops') : Follows c (ops++ops') w (x >>= f) (fun e => y e >>= g e) ψ := by
  obtain ⟨e₁,h₁⟩ := hx
  rcases hr : x.run w with ⟨err | a,u⟩
  · refine ⟨e₁,fun e' he hc => ?_⟩
    have hy := h₁ e' (he.mono (List.subset_append_left _ _)) hc
    rw [run_bind_eq,run_bind_eq,hy,hr]
    rfl
  · obtain ⟨e₂,h₂⟩ := hf a u hr
    refine ⟨e₁.override ops e₂,fun e' he hc => ?_⟩
    have hy := h₁ e' ((he.mono (List.subset_append_left _ _)).trans StepEnv.override_left) hc
    have hg := h₂ e' ((he.mono (List.subset_append_right _ _)).trans
      (StepEnv.override_right hd)) hc
    rw [run_bind_eq,run_bind_eq,hy,hr]
    exact hg

theorem Follows.lift {y : StepEnv Place → Prog (World Place) ε α} {e : StepEnv Place}
    {p : Prog (World Place) ε α} (h : ∀ e' : StepEnv Place, e'.AgreeOn ops e → c e' → y e' = p) :
    Follows c ops w (OnTree.lift p) y id := by
  refine ⟨e,fun e' he hc => ?_⟩
  rw [h e' he hc,map_id_eq]
  rfl

theorem Follows.mapError {g : ε → ε'} (h : Follows c ops w x y φ) :
    Follows c ops w (x.mapError g) (fun e => (y e).mapError g) φ := by
  obtain ⟨e,he⟩ := h
  refine ⟨e,fun e' h' hc => ?_⟩
  rw [run_mapError_eq,run_mapError_eq,he e' h' hc]
  cases (x.run w).1 <;> rfl

theorem Follows.attempt {y : StepEnv Place → Prog (World Place) ε α}
    (h : Follows c ops w x y id) :
    Follows c ops w (x.attempt : Prog TreeWorld ε' (Except ε α)) (fun e => (y e).attempt) id := by
  obtain ⟨e,he⟩ := h
  refine ⟨e,fun e' h' hc => ?_⟩
  rw [run_attempt,run_attempt,he e' h' hc]
  cases (x.run w).1 <;> rfl

theorem Follows.fail {err : ε} :
    Follows c [] w (Prog.fail err : Prog TreeWorld ε α) (fun _ => Prog.fail err) φ :=
  ⟨answering w.world.table none (0,⟨0,0,0⟩),fun _ _ _ => rfl⟩

theorem Follows.pure {a : α} :
    Follows c [] w (Pure.pure a : Prog TreeWorld ε α) (fun _ => Pure.pure a) id :=
  ⟨answering w.world.table none (0,⟨0,0,0⟩),fun _ _ _ => rfl⟩

theorem Follows.ofExcept {r : Except ε α} :
    Follows c [] w (Prog.ofExcept r) (fun _ => Prog.ofExcept r) id := by
  refine ⟨answering w.world.table none (0,⟨0,0,0⟩),fun _ _ _ => ?_⟩
  rw [run_ofExcept,run_ofExcept,map_id_eq]

end

/-- Nothing but directories and the mount table has changed. -/
def KeepsWorld (w u : TreeWorld) : Prop := u.world = {w.world with table := u.world.table}

section
variable {α : Type} {c : StepEnv Place → Prop} {w : TreeWorld} {x : TreeProg α} {env : TreeEnv}

/-- The error of a call, if it has one. -/
def answer : Option String → Except String Unit
  | some error => .error error
  | none => .ok ()

theorem run_syscall_answering {e : StepEnv Place} {ops : List Op} {table : Table Place}
    {fault : Option String} {dir : Place} (h : e.AgreeOn ops (answering table fault dir)) {op : Op}
    (hop : op ∈ ops) (v : World Place) :
    (Byssus.syscall e op).run v = (answer fault,{v with table}) := by
  obtain ⟨hb,hf,-⟩ := h op hop
  simp only [run,Byssus.syscall,hb,hf,answering]
  cases fault <;> rfl

/-- What only walks paths is one operation, with the error that it comes to. -/
theorem Follows.operation (hx : Keeps (KeepsWorld w) x fun _ => True) (op : Op) :
    Follows c [op] w x (fun e => Byssus.syscall e op) fun _ => () := by
  rcases hr : x.run w with ⟨err | a,u⟩
  · have hu : u.world = {w.world with table := u.world.table} := (hx w rfl).2 err u hr
    refine ⟨answering u.world.table (some err) (0,⟨0,0,0⟩),fun e' he _ => ?_⟩
    rw [hr,hu]
    exact run_syscall_answering he (by simp) _
  · have hu : u.world = {w.world with table := u.world.table} :=
      ((hx w rfl).1 a u hr).1
    refine ⟨answering u.world.table none (0,⟨0,0,0⟩),fun e' he _ => ?_⟩
    rw [hr,hu]
    exact run_syscall_answering he (by simp) _

/-- A walk that ends at a descriptor of the table is an operation that opens its directory. -/
theorem Follows.opening {x : TreeProg (Fd Place)}
    (hx : Triple (KeepsWorld w) x
      (fun fd u => KeepsWorld w u ∧ fd = u.world.table.openDir fd.dir) fun _ => KeepsWorld w) :
    Follows c [.ensureDirs] w x (fun e => ensureDirsBeneath e) id := by
  rcases hr : x.run w with ⟨err | fd,u⟩
  · have hu : u.world = {w.world with table := u.world.table} := (hx w rfl).2 err u hr
    refine ⟨answering u.world.table (some err) (0,⟨0,0,0⟩),fun e' he _ => ?_⟩
    simp only [ensureDirsBeneath]
    rw [hr,hu,run_bind_eq,run_syscall_answering he (by simp)]
    rfl
  · obtain ⟨hw,hfd⟩ := (hx w rfl).1 fd u hr
    have hu : u.world = {w.world with table := u.world.table} := hw
    refine ⟨answering u.world.table none fd.dir,fun e' he _ => ?_⟩
    obtain ⟨-,-,hd⟩ := he .ensureDirs (by simp)
    simp only [ensureDirsBeneath]
    rw [hr,hu,run_bind_eq,run_syscall_answering he (by simp),hd]
    simp only [answer,run_gets,answering,← hfd]
    rfl

/-! ### Walks keep the world -/

theorem keepsWalk_world (env : TreeEnv) (components : List Text) (w : TreeWorld) :
    KeepsWalk env components (KeepsWorld w) where
  call := by
    intro u hu
    unfold KeepsWorld at hu ⊢
    simp only [TreeEnv.disturb]
    rw [hu]
  made := fun _ _ _ _ _ _ _ hu _ => hu

theorem resolveDir_world (env : TreeEnv) (w : TreeWorld) (root : Fd Place) (path : Text) :
    Triple (KeepsWorld w) (resolveDir env root path)
      (fun fd u => KeepsWorld w u ∧ (isCleanRelative path = true → Reached fd u))
      fun _ => KeepsWorld w := by
  refine (resolveDir_triple (fsCall_triple (keepsWalk_world env [] w).call) root path).mono
    (fun _ hs => hs) ?_ fun _ _ hs => hs.1
  rintro fd u ⟨hu,ho⟩
  refine ⟨hu,fun hpath => ?_⟩
  rw [openBeneath_clean hpath] at ho
  exact View.walk_reached ho (List.splitOn_ne_nil '/' path)

theorem Follows.resolve {root : Fd Place} {path : Text} {g : FsError → String} (op : Op) :
    Follows c [op] w ((resolveDir env root path).mapError g) (fun e => Byssus.syscall e op)
      fun _ => () :=
  .operation (.mapError ((resolveDir_world env w root path).mono (fun _ hs => hs)
    (fun _ _ hs => ⟨hs.1,trivial⟩) fun _ _ hs => hs)) op

theorem Follows.ensureDirs {root : Fd Place} {components : List Text} {g : FsError → String} :
    Follows c [.ensureDirs] w ((ensureDirs env root components).mapError g)
      (fun e => ensureDirsBeneath e) id :=
  .opening (.mapError (((keepsWalk_world env components w).ensureDirs root).mono
    (fun _ hs => hs) (fun _ _ hs => ⟨hs.1,hs.2.1.opened⟩) fun _ _ hs => hs) fun _ _ hs => hs)

theorem lift_syscall_world (op : Op) :
    Keeps (KeepsWorld w) (lift (Byssus.syscall env.base op)) fun _ => True := by
  refine .of_run fun u hu => ?_
  unfold KeepsWorld at hu ⊢
  simp only [lift,Byssus.syscall,run]
  cases env.base.fault op <;> rw [hu]

theorem Follows.removeTargetDir {target : Location} :
    Follows c [.removeTargetDir] w (removeTargetDir env target)
      (fun e => Byssus.syscall e .removeTargetDir) id := by
  refine .operation (.bind (lift_syscall_world _) fun _ _ => .bind (Q := fun _ => True)
    (.mapError ?_) fun _ _ => .pure trivial) _
  exact removeEmptyDir_keeps (keepsWalk_world env [] w).call (fun _ _ _ _ _ hu _ => hu) _ _

/-- Checking and unmounting what a path leads to. -/
theorem Follows.unmountVerified {target : Location} {expected : MountIdentity} {unique : Bool}
    (htarget : isCleanRelative target.path = true) (op : Op) :
    Follows c [op] w (unmountVerified env target expected unique)
      (fun e => Byssus.unmountVerified e op target expected unique) id := by
  have h := resolveDir_world env w (env.root target.root) target.path
  rcases hr : (resolveDir env (env.root target.root) target.path).run w with ⟨err | fd,u⟩
  · have hu : u.world = {w.world with table := u.world.table} := (h w rfl).2 err u hr
    refine ⟨answering u.world.table (some (env.strerror err)) (0,⟨0,0,0⟩),fun e' he _ => ?_⟩
    simp only [OnTree.unmountVerified,Byssus.unmountVerified]
    rw [run_bind_eq,run_bind_eq,run_mapError_eq,run_mapError_eq,
      run_syscall_answering he (by simp),hr]
    change _ = (Except.error _,u.world)
    rw [hu]
    rfl
  · obtain ⟨hw,hfd⟩ := (h w rfl).1 fd u hr
    have hu : u.world = {w.world with table := u.world.table} := hw
    have hfd := (hfd htarget).opened
    refine ⟨answering u.world.table none fd.dir,fun e' he _ => ?_⟩
    obtain ⟨-,-,hd⟩ := he op (by simp)
    have hd : e'.dir op = fd.dir := hd
    simp only [OnTree.unmountVerified,Byssus.unmountVerified]
    rw [run_bind_eq,run_bind_eq,run_mapError_eq,run_mapError_eq,
      run_syscall_answering he (by simp),hr]
    simp only [answer,Except.mapError,run_bind_gets,hd,← hfd]
    rw [run_bind_eq,run_bind_eq,run_ofExcept,run_ofExcept]
    cases fd.verified expected unique with
    | error e =>
      change _ = (Except.error _,u.world)
      rw [hu]
    | ok m =>
      simp only [OnTree.lift,run]
      rw [hu]
      rfl

/-! ### Steps -/

theorem Follows.syscall {op : Op} :
    Follows c [op] w (OnTree.lift (Byssus.syscall env.base op)) (fun e => Byssus.syscall e op) id :=
  .lift fun _ he _ => syscall_congr he (by simp)

theorem Follows.persist : Follows c [.saveFile,.syncDir] w (OnTree.lift (Byssus.persist env.base))
    (fun e => Byssus.persist e) id :=
  .lift fun _ he _ => persist_congr he (by simp) (by simp)

theorem Follows.tryUnmount {unique : Bool} {record : MountRecord}
    (htarget : isCleanRelative record.target = true) :
    Follows c [.unmountRoot,.unmount,.saveFile,.syncDir,.removeTargetDir] w
      (tryUnmount env unique record) (fun e => Byssus.tryUnmount e unique record) id := by
  refine Follows.bind [.unmountRoot] .syscall (fun _ u _ => ?_) (by decide)
  refine Follows.bind [.unmount] (.mapError (.unmountVerified htarget .unmount))
    (fun _ u _ => ?_) (by decide)
  refine Follows.bind [] (.lift (e := env.base) fun _ _ _ => rfl) (fun _ u _ => ?_)
    (by simp)
  refine Follows.bind [.saveFile,.syncDir] (.attempt .persist) (fun persisted u _ => ?_)
    (by decide)
  exact Follows.bind [.removeTargetDir] (.attempt .removeTargetDir) (fun _ u _ => .ofExcept) (by simp)


/-- The same answers about a new mount, which shows what the source of the mount leads to. -/
def Answers (env : TreeEnv) (w : TreeWorld) : Action → StepEnv Place → Prop
  | .mount d,e => env.base.MountsLike e ∧ ∀ u v source,
      (OnTree.lift (Byssus.syscall env.base .sourceRoot)).run w = (.ok (),u) →
      (resolveDir env (env.root d.source.root) d.source.path).run u = (.ok source,v) →
      e.source = source.place.2
  | .unmount .. ,e | .dropRecord .. ,e => env.base.MountsLike e

theorem Follows.tryMount {unique : Bool} {d : DesiredMount} :
    Follows (Answers env w (.mount d)) [.sourceRoot,.resolveSource,.targetRoot,.ensureDirs,
        .isMountRoot,.openTree,.setAttr,.moveMount,.readIdentity,.saveFile,.syncDir,.rollbackRoot,
        .rollback] w
      (tryMount env unique d) (fun e => Byssus.tryMount e unique d) id := by
  refine Follows.bind [.sourceRoot] .syscall (fun _ w₁ h₁ => ?_) (by decide)
  refine Follows.bind [.resolveSource] (.mapError (.resolve .resolveSource))
    (fun source w₂ h₂ => ?_) (by decide)
  have hsource : ∀ e, Answers env w (.mount d) e → e.source = source.place.2 :=
    fun e he => he.2 _ _ _ h₁ (run_mapError_ok (run_mapError_ok h₂))
  refine Follows.bind [.targetRoot] .syscall (fun _ w₃ _ => ?_) (by decide)
  refine Follows.bind [.ensureDirs] (.mapError .ensureDirs) (fun target w₄ h₄ => ?_)
    (by decide)
  have htarget : isCleanRelative d.target.path = true :=
    isCleanRelative_iff.mpr (((keepsWalk_world env _ w₃).ensureDirs _ w₃ rfl).1 target w₄
      (run_mapError_ok (run_mapError_ok h₄))).2.2
  refine Follows.bind [.isMountRoot] (.mapError (.lift (e := env.base)
    fun e he _ => isMountRoot_congr he (by simp) target)) (fun occupied w₅ _ => ?_) (by decide)
  cases occupied with
  | true => exact .mono .fail (List.nil_subset _)
  | false =>
    refine Follows.bind [.openTree,.setAttr,.moveMount,.readIdentity] (.lift (e := env.base) fun e he hc => ?_) (fun identity w₆ _ => ?_) (by decide)
    · rw [createBind_congr he hc.1 (List.Subset.refl _),hsource e hc]
      rfl
    refine Follows.bind [] (.lift (e := env.base) fun e _ hc => by rw [hc.1.now]; rfl)
      (fun previous w₇ _ => ?_) (by decide)
    refine Follows.bind [.saveFile,.syncDir] (.attempt .persist) (fun saved w₈ _ => ?_)
      (by decide)
    cases saved with
    | ok u => exact .mono .pure (List.nil_subset _)
    | error saveError =>
      refine Follows.bind [] (.lift (e := env.base) fun _ _ _ => rfl) (fun _ w₉ _ => ?_)
        (by decide)
      refine Follows.bind [.rollbackRoot] .syscall (fun _ w₁₀ _ => ?_) (by decide)
      refine Follows.bind [.rollback] (.attempt (.unmountVerified htarget .rollback))
        (fun rollback w₁₁ _ => ?_) (by decide)
      cases rollback with
      | ok u => exact .fail
      | error e => exact .fail

theorem Follows.dropRecord {record : MountRecord} :
    Follows c [.saveFile,.syncDir] w (OnTree.lift (Byssus.dropRecord env.base record))
      (fun e => Byssus.dropRecord e record) id := by
  refine .lift (e := env.base) fun e he _ => ?_
  simp only [Byssus.dropRecord]
  rw [persist_congr he (by simp) (by simp)]

/-- Some environment with the right answers treats the operations in any given way. -/
theorem exists_answers (env : TreeEnv) (w : TreeWorld) (action : Action) (e : StepEnv Place) :
    ∃ i, Answers env w action (env.base.mounting e i) := by
  cases action with
  | mount d =>
    rcases h₁ : (OnTree.lift (Byssus.syscall env.base .sourceRoot)).run w with ⟨err | _,u⟩
    · refine ⟨e.source,StepEnv.mounting_mountsLike,fun _ _ _ hu => ?_⟩
      rw [h₁] at hu
      cases hu
    rcases h₂ : (resolveDir env (env.root d.source.root) d.source.path).run u with ⟨err | source,v⟩
    · refine ⟨e.source,StepEnv.mounting_mountsLike,fun _ _ _ hu hv => ?_⟩
      rw [h₁] at hu
      cases hu
      rw [h₂] at hv
      cases hv
    · refine ⟨source.place.2,StepEnv.mounting_mountsLike,fun _ _ _ hu hv => ?_⟩
      rw [h₁] at hu
      cases hu
      rw [h₂] at hv
      cases hv
      rfl
  | _ => exact ⟨e.source,StepEnv.mounting_mountsLike⟩

/-- The outcome that the step has in some environment with the same answers. -/
theorem runAction_follows (env : TreeEnv) (unique : Bool) (action : Action) (w : TreeWorld)
    (hclean : ∀ record stale, action = .unmount record stale →
      isCleanRelative record.target = true) :
    ∃ e : StepEnv Place, env.base.MountsLike e ∧
      (Byssus.runAction e unique action).run w.world =
        (((runAction env unique action).run w).1,((runAction env unique action).run w).2.world) := by
  have hends : ∀ {ops : List Op} {x : TreeProg Unit} {y : StepEnv Place → Exec Place Unit},
      Follows (Answers env w action) ops w x y id → ∃ e : StepEnv Place, env.base.MountsLike e ∧
        (y e).run w.world = ((x.run w).1,(x.run w).2.world) := by
    rintro ops x y ⟨e,he⟩
    obtain ⟨i,hi⟩ := exists_answers env w action e
    exact ⟨_,StepEnv.mounting_mountsLike,by rw [he _ StepEnv.mounting_agreeOn hi,map_id_eq]⟩
  cases action with
  | mount d => exact hends .tryMount
  | unmount record stale => exact hends (.tryUnmount (hclean record stale rfl))
  | dropRecord record reason => exact hends .dropRecord

end

/-- Every execution that walks the paths is an execution of the plan: the results, the mount table,
the state in memory and on disk and the history are those that `execute` comes to, with the same
identifiers for the new mounts. -/
theorem execute_follows (env : ℕ → TreeEnv) (unique : Bool) (plan : Plan) (w : TreeWorld)
    (hclean : ∀ step ∈ plan.steps, ∀ record stale, step.action = .unmount record stale →
      isCleanRelative record.target = true) :
    ∃ e : ℕ → StepEnv Place, (∀ k, (env k).base.MountsLike (e k)) ∧
      Byssus.execute e unique plan w.world =
        ((execute env unique plan w).1,(execute env unique plan w).2.world) := by
  let ends (done : List Step) := done.foldl (executeStep env unique) ([],w)
  have hlength : ∀ done, (ends done).1.length = done.length := by
    intro done
    induction done using List.reverseRecOn with
    | nil => rfl
    | append_singleton done step ih =>
      simp only [ends,List.foldl_append,List.foldl_cons,List.foldl_nil,executeStep] at ih ⊢
      split_ifs <;> simp [ih]
  have hstep : ∀ k, ∃ e : StepEnv Place, (env k).base.MountsLike e ∧
      ∀ step, plan.steps[k]? = some step →
        (Byssus.runAction e unique step.action).run (ends (plan.steps.take k)).2.world =
          (((runAction (env k) unique step.action).run (ends (plan.steps.take k)).2).1,
            ((runAction (env k) unique step.action).run (ends (plan.steps.take k)).2).2.world) := by
    intro k
    cases hk : plan.steps[k]? with
    | none => exact ⟨(env k).base,⟨rfl,rfl,rfl,rfl⟩,by simp⟩
    | some step =>
      obtain ⟨e,he,hrun⟩ := runAction_follows (env k) unique step.action
        (ends (plan.steps.take k)).2 (hclean step (List.mem_of_getElem? hk))
      exact ⟨e,he,fun step' hs => by cases hs; exact hrun⟩
  choose e he hrun using hstep
  refine ⟨e,he,?_⟩
  have hprefix : ∀ done rest, done++rest = plan.steps →
      done.foldl (Byssus.executeStep e unique) ([],w.world) =
        ((ends done).1,(ends done).2.world) := by
    intro done
    induction done using List.reverseRecOn with
    | nil => exact fun _ _ => rfl
    | append_singleton done step ih =>
      intro rest hrest
      have hdone : done++step::rest = plan.steps := by rw [← hrest,List.append_assoc]; rfl
      have htake : plan.steps.take done.length = done := by rw [← hdone,List.take_left]
      have hget : plan.steps[done.length]? = some step := by simp [← hdone]
      have hr := hrun done.length step hget
      rw [htake] at hr
      have ih' := ih (step::rest) hdone
      rw [List.foldl_append,ih']
      have hends : ends (done++[step]) = executeStep env unique (ends done) step := by
        simp only [ends,List.foldl_append,List.foldl_cons,List.foldl_nil]
      rw [hends]
      simp only [List.foldl_cons,List.foldl_nil,Byssus.executeStep,executeStep,hlength done,hr]
      split_ifs <;> rfl
  exact hprefix plan.steps [] (by simp)

end OnTree

/-- The steps of `run_pass`, where their paths are walked. -/
def Daemon.walkPass {H : Type} (env : ℕ → TreeEnv) (a : PassEnv H) (d : Daemon H Place)
    (w : TreeWorld) : List StepResult × TreeWorld :=
  OnTree.execute env d.uniqueSupported (plan (passInput a d.runtime d.world.state d.degraded)) w

/-- In every life, a pass that walks the paths of its steps, whatever other processes do to the
directories and the mounts between the calls, comes to the results, the mount table, the state in
memory and on disk and the history of a pass of the daemon, with the same identifiers for the new
mounts. -/
theorem lives_walk {H K : Type} {f : FileFormat} {sys : InotifySys K} {l : Loop H Place}
    (h : Lives f sys l) (a : PassEnv H) (env : ℕ → TreeEnv) {w : TreeWorld}
    (hw : w.world = l.daemon.world) :
    ∃ steps : ℕ → StepEnv Place, (∀ k, (env k).base.MountsLike (steps k)) ∧
      ∀ inotify elapsed,
        (l.daemon.runPass sys ⟨a,inotify,steps,elapsed⟩).2.results = (l.daemon.walkPass env a w).1 ∧
        (l.daemon.runPass sys ⟨a,inotify,steps,elapsed⟩).1.world =
          (l.daemon.walkPass env a w).2.world := by
  have hclean : ∀ step ∈ (plan (passInput a l.daemon.runtime l.daemon.world.state
      l.daemon.degraded)).steps, ∀ record reason, step.action = .unmount record reason →
      isCleanRelative record.target = true := by
    intro step hs record reason ha
    have hmem := plan_removes_record (List.mem_map_of_mem hs)
      (show step.action.Removes record from .inl ⟨reason,ha⟩)
    exact (h.sound.storable.1 record hmem).target
  obtain ⟨steps,hlike,hrun⟩ := OnTree.execute_follows env l.daemon.uniqueSupported _ w hclean
  rw [hw] at hrun
  refine ⟨steps,hlike,fun inotify elapsed => ?_⟩
  simp only [Daemon.runPass,Daemon.walkPass,hrun,and_self]

/-! A life in which the only member has left: its directory is walked to, the mount is taken away, and
the directory too. -/
namespace SampleWalk

open SampleStateFile

def env : TreeEnv := {SampleDirs.quiet with
  base := {SampleDirs.quiet.base with dir := fun _ => (0,SampleDirs.inode 2)}}

def life : Loop ℕ Place := .start SampleLife.startup ⟨fun _ => [],.empty,.empty,[]⟩ true 0
  ⟨SampleLife.passEnv,0,fun _ => env.base,0⟩

def left : PassEnv ℕ := {SampleLife.passEnv with
  readDir := fun _ => .ok ([],none)
  inspect := fun _ => .mounted ⟨7,none,SampleDirs.inode 1⟩ (some ⟨true,true,true,true,false⟩)}

def world : TreeWorld :=
  ⟨SampleDirs.tree.addDir (SampleDirs.inode 1) "libcurl".toList (SampleDirs.inode 2),
    life.daemon.world,0,[]⟩

theorem inRange : env.base.InRange := ⟨by decide,by decide +revert,by decide,by decide,by decide⟩

def walked : List StepResult × TreeWorld := life.daemon.walkPass (fun _ => env) left world

theorem lives_walk_run : walked.1 = [.done] ∧ walked.2.changes.length = 1 ∧
    ∃ steps : ℕ → StepEnv Place,
      (life.daemon.runPass SampleLife.sys ⟨left,0,steps,0⟩).2.results = walked.1 ∧
      (life.daemon.runPass SampleLife.sys ⟨left,0,steps,0⟩).1.world = walked.2.world := by
  have hlife : Lives format SampleLife.sys life :=
    .first SampleLife.startup (fun _ => []) true 0 fun _ => inRange
  obtain ⟨steps,-,h⟩ := lives_walk hlife left (fun _ => env) (w := world) rfl
  exact ⟨by decide +kernel,by decide +kernel,steps,h 0 0⟩

end SampleWalk
end Byssus
