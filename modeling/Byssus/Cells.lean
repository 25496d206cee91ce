import Byssus.FailedMount

/-! What a step reads and changes when no other process acts and the state file can be written:
the record of its member and the mounts at its target. -/
namespace Byssus

open Program Prog

variable {D : Type}

/-! ### What a step does when nobody interferes and the state file can be written -/

section
variable [DecidableEq D] {env : StepEnv D} {x : D} {unique : Bool} {w : World D}

end

/-- What steps work on: the record of a member, and the mounts stacked at a location. -/
inductive Cell
  | record (key : RecordKey)
  | stack (location : Location)
  deriving DecidableEq

/-- The record without the IDs of its mount. -/
def MountRecord.anonymous (r : MountRecord) : MountRecord :=
  {r with mntId := 0, mntIdUnique := none}

/-- The mount without its IDs. -/
def Mount.anonymous (m : Mount) : Mount := {m with identity := ⟨0,none,m.identity.root⟩}

namespace Cell

/-- The cell holds the same in both worlds. -/
def Same (dir : Location → D) : Cell → World D → World D → Prop
  | .record key,w,v => w.state.get key = v.state.get key
  | .stack location,w,v => w.table (dir location) = v.table (dir location)

/-- The cell holds the same in both worlds, up to the IDs of mounts. -/
def Agree (dir : Location → D) : Cell → World D → World D → Prop
  | .record key,w,v =>
    (w.state.get key).map MountRecord.anonymous = (v.state.get key).map MountRecord.anonymous
  | .stack location,w,v =>
    (w.table (dir location)).map Mount.anonymous = (v.table (dir location)).map Mount.anonymous

variable {dir : Location → D} {c : Cell} {u v w : World D}

theorem Same.agree (h : c.Same dir w v) : c.Agree dir w v := by
  cases c with
  | record key => exact congrArg (Option.map MountRecord.anonymous) h
  | stack location => exact congrArg (List.map Mount.anonymous) h

theorem Same.refl (c : Cell) (w : World D) : c.Same dir w w := by cases c <;> rfl

theorem Same.symm (h : c.Same dir w v) : c.Same dir v w := by
  cases c with
  | record key => exact Eq.symm h
  | stack location => exact Eq.symm h

theorem Same.trans (h₁ : c.Same dir u v) (h₂ : c.Same dir v w) : c.Same dir u w := by
  cases c with
  | record key => exact Eq.trans h₁ h₂
  | stack location => exact Eq.trans h₁ h₂

/-- What agrees still agrees when neither side changes. -/
theorem Agree.congr {w' v' : World D} (h : c.Agree dir w v) (hw : c.Same dir w w')
    (hv : c.Same dir v v') : c.Agree dir w' v' := by
  cases c with
  | record key =>
    have hw : w.state.get key = w'.state.get key := hw
    have hv : v.state.get key = v'.state.get key := hv
    have h : (w.state.get key).map _ = (v.state.get key).map _ := h
    rwa [hw,hv] at h
  | stack location =>
    have hw : w.table (dir location) = w'.table (dir location) := hw
    have hv : v.table (dir location) = v'.table (dir location) := hv
    have h : (w.table (dir location)).map _ = (v.table (dir location)).map _ := h
    rwa [hw,hv] at h

end Cell

section
variable [DecidableEq D] {env env' : StepEnv D} {dir : Location → D} {unique : Bool}
  {w w' v v' : World D} {a : Action} {r r' : Except String Unit}

/-- A step changes the record of its member, the mounts at its target and nothing else; the file
is left alone or holds what memory holds. -/
structure Confined (dir : Location → D) (a : Action) (w v : World D) : Prop where
  records : ∀ k, a.key ≠ k → v.state.get k = w.state.get k
  mounts : ∀ x, (∀ l, a.touches = some l → x ≠ dir l) → v.table x = w.table x
  file : v.disk = w.disk ∨ v.disk = v.state

omit [DecidableEq D] in
theorem Confined.refl (a : Action) (w : World D) : Confined dir a w w :=
  ⟨fun _ _ => rfl,fun _ _ => rfl,.inl rfl⟩

end

/-- The calls that do not look for the source fail alike, and the time is the same. -/
structure StepEnv.CallsAlike (env env' : StepEnv D) : Prop where
  fault : ∀ op, op ≠ .sourceRoot → op ≠ .resolveSource → env.fault op = env'.fault op
  now : env.now = env'.now

/-- The source is the same directory in both environments, or cannot be reached in either. -/
structure StepEnv.SourceAlike (env env' : StepEnv D) : Prop where
  sourceRoot : env.fault .sourceRoot = env'.fault .sourceRoot
  resolveSource : env.fault .resolveSource = env'.fault .resolveSource
  source : env.source = env'.source
  inherited : env.inherited = env'.inherited

section
variable {env env' : StepEnv D} {dir : Location → D} {unique : Bool} {w w' v v' : World D}
  {a : Action} {r r' : Except String Unit}

theorem StepEnv.SourceAlike.fault (hs : env.SourceAlike env') (h : env.CallsAlike env') :
    env.fault = env'.fault := by
  funext op
  by_cases h₁ : op = .sourceRoot
  · subst h₁
    exact hs.sourceRoot
  by_cases h₂ : op = .resolveSource
  · subst h₂
    exact hs.resolveSource
  exact h.fault op h₁ h₂

theorem StepEnv.SourceAlike.newMount (h : env.SourceAlike env') (d : DesiredMount) :
    (env.newMount d).anonymous = (env'.newMount d).anonymous := by
  simp [StepEnv.newMount,Mount.anonymous,h.source,h.inherited]

theorem StepEnv.SourceAlike.record (hs : env.SourceAlike env') (h : env.CallsAlike env')
    (d : DesiredMount) : (env.record unique d).anonymous = (env'.record unique d).anonymous := by
  simp [StepEnv.record,newRecord,Mount.readIdentity,StepEnv.newMount,MountRecord.anonymous,
    hs.source,h.now]

variable [DecidableEq D]

end

end Byssus
