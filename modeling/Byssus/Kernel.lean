import Byssus.Plan

/-! The kernel's mount table as Byssus sees it.
Each directory carries a stack of mounts, the visible one first; other processes
may change the table between any two operations. -/
namespace Byssus

/-- An attached mount: the identity of its root and the restrictions it enforces. -/
structure Mount where
  identity : MountIdentity
  attrs : ObservedAttrs
  deriving DecidableEq

namespace Mount

/-- `read_identity`: the unique ID is requested only where it is supported. -/
def readIdentity (m : Mount) (unique : Bool) : MountIdentity :=
  {m.identity with mntIdUnique := if unique then m.identity.mntIdUnique else none}

@[simp] theorem readIdentity_root (m : Mount) (unique : Bool) :
    (m.readIdentity unique).root = m.identity.root := rfl

end Mount

/-- `attr_bits`: the bits set on a new mount. -/
def attrBits (attrs : MountAttrs) : ObservedAttrs :=
  ⟨attrs.readOnly,true,true,attrs.noexec,attrs.nosymfollow⟩

/-- `mount_setattr_add`: bits are added to those the clone has already. -/
def ObservedAttrs.add (o bits : ObservedAttrs) : ObservedAttrs :=
  ⟨o.readOnly || bits.readOnly,o.nosuid || bits.nosuid,o.nodev || bits.nodev,
    o.noexec || bits.noexec,o.nosymfollow || bits.nosymfollow⟩

/-- A mount enforces the attributes that were added to it, whatever it inherited. -/
theorem add_attrBits_enforce (o : ObservedAttrs) (attrs : MountAttrs) :
    (o.add (attrBits attrs)).enforce attrs = true := by
  cases h₁ : attrs.readOnly <;> cases h₂ : attrs.noexec <;> cases h₃ : attrs.nosymfollow <;>
    simp [ObservedAttrs.enforce,ObservedAttrs.add,attrBits,h₁,h₂,h₃]

variable {D : Type}

/-- The mounts stacked on each directory, the visible one first. -/
abbrev Table (D : Type) := D → List Mount

/-- An open descriptor: a directory, and the mount whose root it is, if it is one. -/
structure Fd (D : Type) where
  dir : D
  mount : Option Mount

namespace Table

/-- `resolve_dir` on a path that leads to `dir`. -/
def openDir (t : Table D) (dir : D) : Fd D := ⟨dir,(t dir).head?⟩

variable [DecidableEq D]

/-- `move_mount` onto `dir`: the new mount covers what is there. -/
def attach (t : Table D) (dir : D) (m : Mount) : Table D := Function.update t dir (m::t dir)

/-- `umount2` with `MNT_DETACH` on the mount on top at `dir`. -/
def detach (t : Table D) (dir : D) : Table D := Function.update t dir (t dir).tail

@[simp] theorem attach_same (t : Table D) (dir : D) (m : Mount) :
    t.attach dir m dir = m::t dir := by simp [attach]

@[simp] theorem detach_same (t : Table D) (dir : D) : t.detach dir dir = (t dir).tail := by
  simp [detach]

theorem attach_of_ne {t : Table D} {dir d : D} {m : Mount} (h : d ≠ dir) :
    t.attach dir m d = t d := by simp [attach,h]

theorem detach_of_ne {t : Table D} {dir d : D} (h : d ≠ dir) : t.detach dir d = t d := by
  simp [detach,h]

theorem mem_attach {t : Table D} {dir d : D} {m x : Mount} :
    x ∈ t.attach dir m d ↔ (d = dir ∧ x = m) ∨ x ∈ t d := by
  by_cases h : d = dir
  · subst h
    simp
  · simp [attach_of_ne h,h]

/-- Detaching removes mounts and adds none. -/
theorem detach_sublist (t : Table D) (dir d : D) : (t.detach dir d).Sublist (t d) := by
  by_cases h : d = dir
  · subst h
    rw [detach_same]
    exact List.tail_sublist _
  · rw [detach_of_ne h]

end Table

/-- `inspect_fd`.  `attrsReadable` is the outcome of `fstatvfs`. -/
def Fd.inspect (fd : Fd D) (unique attrsReadable : Bool) : TargetState :=
  match fd.mount with
  | none => .notMounted
  | some m => .mounted (m.readIdentity unique) (if attrsReadable then some m.attrs else none)

theorem Fd.inspect_ne_unavailable (fd : Fd D) (unique attrsReadable : Bool) (reason : String) :
    fd.inspect unique attrsReadable ≠ .unavailable reason := by
  unfold Fd.inspect
  cases fd.mount <;> simp

inductive VerifiedOpError
  | notMounted
  | identityMismatch (found : ℕ)
  | io (error : String)
  deriving DecidableEq

/-- The texts of `VerifiedOpError`. -/
def VerifiedOpError.message : VerifiedOpError → String
  | .notMounted => "nothing is mounted at the target"
  | .identityMismatch found =>
    "the mount at the target is not the recorded mount (found mount ID " ++ toString found ++ ")"
  | .io error => error

/-- `open_verified` on a descriptor: the mount it shows is the expected one. -/
def Fd.verified (fd : Fd D) (expected : MountIdentity) (unique : Bool) :
    Except VerifiedOpError Mount :=
  match fd.mount with
  | none => .error .notMounted
  | some m =>
    if (m.readIdentity unique).matches expected then .ok m
    else .error (.identityMismatch (m.readIdentity unique).mntId)

theorem Fd.verified_ok {fd : Fd D} {expected : MountIdentity} {unique : Bool} {m : Mount}
    (h : fd.verified expected unique = .ok m) :
    fd.mount = some m ∧ (m.readIdentity unique).matches expected = true := by
  unfold Fd.verified at h
  split at h
  · cases h
  · rename_i x hx
    split_ifs at h with hm
    cases h
    exact ⟨hx,hm⟩

end Byssus
