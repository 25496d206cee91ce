import Byssus.Kernel
import Byssus.Library.Program

/-! Executing a plan against the kernel and the state file.
Every operation first lets other processes change the mount table and may then
fail; what happens is chosen by the environment of the step. -/
namespace Byssus

open Program Prog

/-- The operations of a step, in the order in which a step can reach them. -/
inductive Op
  | sourceRoot | resolveSource | targetRoot | ensureDirs | isMountRoot
  | openTree | setAttr | moveMount | readIdentity
  | saveFile | syncDir
  | rollbackRoot | rollback
  | unmountRoot | unmount
  | removeTargetDir
  deriving DecidableEq

/-- What the outside world does during one step. -/
structure StepEnv (D : Type) where
  /-- The change other processes make to the mount table just before an operation. -/
  before : Op → Table D → Table D
  /-- The error of an operation that fails. -/
  fault : Op → Option String
  /-- The directory that the path of an operation leads to. -/
  dir : Op → D
  /-- The directory that the source resolves to. -/
  source : DevIno
  /-- The IDs of a mount made in this step. -/
  mntId : ℕ
  mntIdUnique : Option ℕ
  /-- The restrictions a mount inherits from the mount it is cloned from. -/
  inherited : ObservedAttrs
  now : Timestamp

/-- What happened to the mount table, as far as Byssus did it. -/
inductive Event (D : Type)
  | attached (dir : D) (mount : Mount) (desired : DesiredMount)
  | readBack (mount : Mount) (identity : MountIdentity)
  /-- `umount2` on `mount`, with the mounts that were stacked on `dir`. -/
  | umount (target : Location) (dir : D) (mount : Mount) (stack : List Mount)
  deriving DecidableEq

/-- The mount table, the state in memory and on disk, and the history of Byssus. -/
structure World (D : Type) where
  table : Table D
  state : State
  disk : State
  trace : List (Event D)

inductive StepResult
  | done
  | skipped
  | failed (error : String)
  deriving DecidableEq

abbrev Exec (D α : Type) := Prog (World D) String α

def Location.text (l : Location) : String := String.ofList l.display

section
variable {D : Type} (env : StepEnv D)

def syscall (op : Op) : Exec D Unit := fun w =>
  let w := {w with table := env.before op w.table}
  match env.fault op with
  | some error => (.error error,w)
  | none => (.ok (),w)

/-- `fsops::ensure_dirs_beneath`. -/
def ensureDirsBeneath : Exec D (Fd D) := do
  syscall env .ensureDirs
  gets fun w => w.table.openDir (env.dir .ensureDirs)

/-- `mount::is_mount_root`. -/
def isMountRoot (fd : Fd D) : Exec D Bool := do
  syscall env .isMountRoot
  pure fd.mount.isSome

/-- The mount that `open_tree` and `mount_setattr` prepare. -/
def StepEnv.newMount (d : DesiredMount) : Mount where
  identity := ⟨env.mntId,env.mntIdUnique,env.source⟩
  attrs := env.inherited.add (attrBits d.attrs)

/-- `StateStore::save`: the file is replaced before its directory is synced. -/
def save : Exec D Unit := do
  syscall env .saveFile
  modify fun w => {w with disk := w.state}
  syscall env .syncDir

/-- `persist`. -/
def persist : Exec D Unit := (save env).mapError fun e => "cannot write state file: " ++ e

variable [DecidableEq D]

/-- `mount::create_bind`. -/
def createBind (target : Fd D) (d : DesiredMount) (unique : Bool) : Exec D MountIdentity := do
  syscall env .openTree
  syscall env .setAttr
  syscall env .moveMount
  let m := env.newMount d
  modify fun w => {w with
    table := w.table.attach target.dir m
    trace := w.trace ++ [.attached target.dir m d]}
  syscall env .readIdentity
  modify fun w => {w with trace := w.trace ++ [.readBack m (m.readIdentity unique)]}
  pure (m.readIdentity unique)

/-- `mount::unmount_verified`.  The check and the umount are one step on one descriptor. -/
def unmountVerified (op : Op) (target : Location) (expected : MountIdentity) (unique : Bool) :
    Prog (World D) VerifiedOpError Unit := do
  (syscall env op).mapError .io
  let fd ← gets fun w => w.table.openDir (env.dir op)
  let m ← ofExcept (fd.verified expected unique)
  modify fun w => {w with
    table := w.table.detach (env.dir op)
    trace := w.trace ++ [.umount target (env.dir op) m (w.table (env.dir op))]}

def newRecord (d : DesiredMount) (identity : MountIdentity) (now : Timestamp) : MountRecord where
  group := d.key.group
  name := d.key.name
  sourceRoot := d.source.root
  source := d.source.path
  targetRoot := d.target.root
  target := d.target.path
  mntId := identity.mntId
  mntIdUnique := identity.mntIdUnique
  rootDevMajor := identity.root.devMajor
  rootDevMinor := identity.root.devMinor
  rootIno := identity.root.ino
  readOnly := d.attrs.readOnly
  noexec := d.attrs.noexec
  nosymfollow := d.attrs.nosymfollow
  createdAt := now

/-- `self.state.insert(record)`, with the record it replaces. -/
def insertRecord (record : MountRecord) : Exec D (Option MountRecord) := fun w =>
  let (state,previous) := w.state.insert record
  (.ok previous,{w with state})

/-- Memory is put back as it was before the record was inserted. -/
def restore (key : RecordKey) (previous : Option MountRecord) (w : World D) : World D :=
  match previous with
  | some prev => {w with state := (w.state.insert prev).1}
  | none => {w with state := w.state.remove key}

/-- `try_mount`. -/
def tryMount (unique : Bool) (d : DesiredMount) : Exec D Unit := do
  let atTarget := fun e => "target " ++ d.target.text ++ ": " ++ e
  syscall env .sourceRoot
  (syscall env .resolveSource).mapError fun e => "source " ++ d.source.text ++ ": " ++ e
  syscall env .targetRoot
  let target ← (ensureDirsBeneath env).mapError atTarget
  let occupied ← (isMountRoot env target).mapError atTarget
  if occupied then
    fail ("target " ++ d.target.text ++ " became occupied by another mount")
  else
    let identity ← createBind env target d unique
    let previous ← insertRecord (newRecord d identity env.now)
    let saved ← (persist env).attempt
    match saved with
    | .ok () => pure ()
    | .error saveError =>
      -- never leave a mount that could not be recorded
      modify (restore d.key previous)
      syscall env .rollbackRoot
      let rollback ← (unmountVerified env .rollback d.target identity unique).attempt
      match rollback with
      | .ok () => fail (saveError ++ "; mount rolled back")
      | .error e => fail (saveError ++ "; rollback unmount also failed: " ++ e.message)

/-- The error of a refused or failed unmount. -/
def unmountError : VerifiedOpError → String
  | .io error => error
  | e => "refusing to unmount: " ++ e.message

/-- `try_unmount`.  Removing the target directory does not touch the mount table and
its outcome is ignored. -/
def tryUnmount (unique : Bool) (record : MountRecord) : Exec D Unit := do
  syscall env .unmountRoot
  (unmountVerified env .unmount record.targetLocation record.identity unique).mapError unmountError
  modify fun w => {w with state := w.state.remove record.key}
  let persisted ← (persist env).attempt
  let _ ← ((syscall env .removeTargetDir).attempt : Exec D (Except String Unit))
  ofExcept persisted

/-- `drop_record`. -/
def dropRecord (record : MountRecord) : Exec D Unit := do
  modify fun w => {w with state := w.state.remove record.key}
  persist env

def runAction (unique : Bool) : Action → Exec D Unit
  | .mount d => tryMount env unique d
  | .unmount record _ => tryUnmount env unique record
  | .dropRecord record _ => dropRecord env record

end

def intoResult : Except String Unit → StepResult
  | .ok () => .done
  | .error e => .failed e

section
variable {D : Type} [DecidableEq D]

/-- One iteration of `execute`; the step's number is that of the results so far. -/
def executeStep (env : ℕ → StepEnv D) (unique : Bool) (acc : List StepResult × World D)
    (step : Step) : List StepResult × World D :=
  let (results,w) := acc
  if step.dependsOn.any fun i => results[i]? ≠ some .done then (results ++ [.skipped],w)
  else
    let (result,w) := (runAction (env results.length) unique step.action).run w
    (results ++ [intoResult result],w)

/-- `execute`. -/
def execute (env : ℕ → StepEnv D) (unique : Bool) (plan : Plan) (w : World D) :
    List StepResult × World D :=
  plan.steps.foldl (executeStep env unique) ([],w)

end
end Byssus
