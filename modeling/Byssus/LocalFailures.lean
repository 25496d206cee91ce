import Byssus.Library.Footprint
import Byssus.Cells
import Byssus.Schedule
import Byssus.TreeExecution

/-! Failures are local: what a step does depends on the failures of the steps that it waits for
and of no others. -/
namespace Byssus

open Program Prog

/-! ### Steps that share a cell -/

section
variable {input : PlanInput} {i j : ℕ} {s t : Step}

end

/-! ### Runs step by step -/

section
variable [DecidableEq D]

variable (env : ℕ → StepEnv D) (unique : Bool) {p : Plan} (w : World D) {i n : ℕ} {s : Step}

variable {env} {dir : Location → D}

end

/-! ### Two executions of a plan -/

section
variable [DecidableEq D] {input : PlanInput} {dir : Location → D} {env env' : ℕ → StepEnv D}
  {F : ℕ → Prop}

end

/-! Runs that differ in whether the first step fails. -/
namespace FirstStepFails

open Sample

/-- Nobody else acts, and step `i` works at `target i`; the unmount of the first step fails if
`fails`. -/
def env (target : ℕ → Location) (fails : Bool) (i : ℕ) : StepEnv Location where
  before := fun _ t => t
  fault := fun op =>
    if fails && i = 0 && op = .unmount then some "Device or resource busy (os error 16)" else none
  dir := fun _ => target i
  source := dir 43
  mntId := 8
  mntIdUnique := some 8
  inherited := ⟨false,false,false,false,false⟩
  now := 0

def start (records : List MountRecord) (mounts : List (Location × MountIdentity)) :
    World Location where
  table := fun l => (mounts.filter (·.1 = l)).map fun e => ⟨e.2,⟨true,true,true,true,false⟩⟩
  state := state records
  disk := state records
  trace := []

/-- Two members that are gone have the mount at one target in their records. -/
def shared : PlanInput where
  desired := []
  state := state [record group a "x" 1 10,record group b "x" 1 10]
  frozenGroups := ∅
  observations := observations [] [(view "x",.mounted (identity 1 10) none)]

def target (i : ℕ) : Location := view (if i = 0 then "x" else if i = 1 then "y" else "z")

end FirstStepFails
end Byssus
