import Mathlib.Algebra.BigOperators.Group.Finset.Basic
import Mathlib.Data.List.Sort
import Mathlib.Data.Fintype.Basic

/-! Capability normalization: the plan, and the operations as the kernel executes them.
The kernel is given by its rules for capabilities, securebits and IDs, in the initial user
namespace: all IDs but one are valid there, and that one stands for no change. -/
namespace Byssus.Privileges

/-- `CapabilitySet`: the set of its bits. -/
abbrev CapabilitySet := Finset (Fin 64)

def capSetgid : Fin 64 := 6
def capSetuid : Fin 64 := 7
def capSetpcap : Fin 64 := 8
def capSysAdmin : Fin 64 := 21

/-- `bits`. -/
def CapabilitySet.bits (s : CapabilitySet) : ℕ := s.sum fun n => 2^n.val

structure CapabilitySets where
  effective : CapabilitySet
  permitted : CapabilitySet
  inheritable : CapabilitySet
  deriving DecidableEq

inductive SecureFlag
  | noRoot
  | noSetuidFixup
  | keepCaps
  | noCapAmbientRaise
  deriving DecidableEq

instance : Fintype SecureFlag where
  elems := {.noRoot,.noSetuidFixup,.keepCaps,.noCapAmbientRaise}
  complete f := by cases f <;> decide

/-- A securebit: a flag, or the lock that keeps the flag as it is. -/
inductive SecureBit
  | flag (flag : SecureFlag)
  | lock (flag : SecureFlag)
  deriving DecidableEq

abbrev SecureBits := Finset SecureBit

def SecureFlag.index : SecureFlag → ℕ
  | .noRoot => 0
  | .noSetuidFixup => 2
  | .keepCaps => 4
  | .noCapAmbientRaise => 6

/-- `bits`: a lock is the bit after its flag. -/
def SecureBits.bits (s : SecureBits) : ℕ := s.sum fun
  | .flag f => 2^f.index
  | .lock f => 2^(f.index+1)

/-- Real, effective and saved ID. -/
structure Ids where
  real : UInt32
  effective : UInt32
  saved : UInt32
  deriving DecidableEq

def Ids.toList (ids : Ids) : List UInt32 := [ids.real,ids.effective,ids.saved]

/-- All three IDs equal. -/
def Ids.all (id : UInt32) : Ids := ⟨id,id,id⟩

/-! ### The plan -/

structure Credentials where
  uids : Ids
  caps : CapabilitySets

/-- `any_uid_is_root`. -/
def Credentials.anyUidIsRoot (c : Credentials) : Bool := c.uids.toList.contains 0

structure FinalGroups where
  gid : UInt32
  groups : List UInt32
  deriving DecidableEq

structure ServiceUser where
  name : String
  uid : UInt32
  gid : UInt32
  groups : List UInt32
  deriving DecidableEq

/-- `final_groups`: the primary group is also among the supplementary groups. -/
def ServiceUser.finalGroups (user : ServiceUser) : FinalGroups where
  gid := user.gid
  groups := if user.gid ∈ user.groups then user.groups else user.gid::user.groups

inductive Goal
  | keepSysAdmin
  | dropAll
  deriving DecidableEq

/-- The capabilities to keep. -/
def Goal.keep : Goal → CapabilitySet
  | .keepSysAdmin => {capSysAdmin}
  | .dropAll => ∅

structure Request where
  goal : Goal
  user : Option ServiceUser
  allowRoot : Bool

inductive Op
  | clearAmbient
  | setCaps (sets : CapabilitySets)
  | dropBoundingExcept (keep : CapabilitySet)
  | setSecureBits (bits : SecureBits)
  | setKeepCaps (enable : Bool)
  | setGroups (groups : List UInt32)
  | setResGid (gid : UInt32)
  | setResUid (uid : UInt32)
  | setNoNewPrivs
  deriving DecidableEq

inductive Warning
  | runningAsRoot
  | userNotApplied (user : String) (effectiveUid : UInt32)
  deriving DecidableEq

inductive PlanError
  | missingSysAdmin
  | rootWithoutUser
  | serviceUserIsRoot (name : String)
  | cannotSwitchUser (user missing : String)
  deriving DecidableEq

/-- `Display`. -/
def PlanError.message : PlanError → String
  | .missingSysAdmin => "CAP_SYS_ADMIN is not permitted; run under systemd with " ++
      "AmbientCapabilities=CAP_SYS_ADMIN, or apply 'setcap cap_sys_admin+ep' to the binary"
  | .rootWithoutUser => "refusing to run as root: configure daemon.user (or pass --user) so " ++
      "privileges can be dropped, or pass --allow-root for development and testing"
  | .serviceUserIsRoot name => "service user '" ++ name ++
      "' has UID 0; choose an unprivileged user"
  | .cannotSwitchUser user missing => "cannot switch to user '" ++ user ++ "': " ++ missing ++
      " is not permitted"

structure PrivilegePlan where
  ops : List Op
  warnings : List Warning
  finalUid : UInt32
  finalCaps : CapabilitySet
  finalGroups : Option FinalGroups

/-- `LOCKED_SECURE_BITS`. -/
def lockedSecureBits : SecureBits :=
  {.flag .noRoot,.lock .noRoot,.flag .noSetuidFixup,.lock .noSetuidFixup,.lock .keepCaps,
    .flag .noCapAmbientRaise,.lock .noCapAmbientRaise}

/-- The user to switch to, if any. -/
def switchTo (current : Credentials) (request : Request) :
    Except PlanError (Option ServiceUser × List Warning) :=
  match current.anyUidIsRoot,request.user with
  | true,some user =>
    if user.uid = 0 then .error (.serviceUserIsRoot user.name) else .ok (some user,[])
  | true,none =>
    if request.goal = .keepSysAdmin then
      if !request.allowRoot then .error .rootWithoutUser else .ok (none,[.runningAsRoot])
    else .ok (none,[])
  | false,some user =>
    .ok (none,if current.uids.effective ≠ user.uid
      then [.userNotApplied user.name current.uids.effective] else [])
  | false,none => .ok (none,[])

/-- The first capability that a switch needs and that is not permitted. -/
def missingForSwitch (permitted : CapabilitySet) : Option String :=
  ([(capSetuid,"CAP_SETUID"),(capSetgid,"CAP_SETGID")].find? fun c => c.1 ∉ permitted).map Prod.snd

/-- The capabilities used along the way. -/
def neededCaps (permitted : CapabilitySet) (user : Option ServiceUser) : CapabilitySet :=
  (if capSetpcap ∈ permitted then {capSetpcap} else ∅)∪
    if user.isSome then {capSetuid,capSetgid} else ∅

/-- They must be effective first. -/
def raiseOps (caps : CapabilitySets) (needed : CapabilitySet) : List Op :=
  if needed ⊆ caps.effective then []
  else [.setCaps ⟨caps.effective ∪ needed,caps.permitted,∅⟩]

/-- The operations that need `CAP_SETPCAP`. -/
def lockOps (permitted keep : CapabilitySet) : List Op :=
  if capSetpcap ∈ permitted then [.dropBoundingExcept keep,.setSecureBits lockedSecureBits] else []

/-- Without `CAP_SETPCAP` the capabilities survive the UID change by `KEEPCAPS`. -/
def switchOps (permitted : CapabilitySet) : Option ServiceUser → List Op
  | none => []
  | some user =>
    let keepCaps := fun enable => if capSetpcap ∈ permitted then [] else [Op.setKeepCaps enable]
    keepCaps true++[.setGroups user.finalGroups.groups,.setResGid user.finalGroups.gid,
      .setResUid user.uid]++keepCaps false

/-- `plan`. -/
def plan (current : Credentials) (request : Request) : Except PlanError PrivilegePlan :=
  let keep := request.goal.keep
  let permitted := current.caps.permitted
  if request.goal = .keepSysAdmin ∧ capSysAdmin ∉ permitted then .error .missingSysAdmin
  else match switchTo current request with
    | .error e => .error e
    | .ok (user,warnings) =>
      match user.bind fun user => (missingForSwitch permitted).map (user.name,·) with
      | some (user,missing) => .error (.cannotSwitchUser user missing)
      | none => .ok {
          ops := .clearAmbient::raiseOps current.caps (neededCaps permitted user)++
            lockOps permitted keep++switchOps permitted user++
            [.setCaps ⟨keep,keep,∅⟩,.setNoNewPrivs]
          warnings := warnings
          finalUid := (user.map ServiceUser.uid).getD current.uids.effective
          finalCaps := keep
          finalGroups := user.map ServiceUser.finalGroups }

/-! ### The process, and the kernel's rules -/

structure ProcessState where
  uids : Ids
  gids : Ids
  groups : List UInt32
  threads : ℕ
  capInheritable : CapabilitySet
  capPermitted : CapabilitySet
  capEffective : CapabilitySet
  capBounding : CapabilitySet
  capAmbient : CapabilitySet
  noNewPrivs : Bool
  secureBits : SecureBits
  deriving DecidableEq

/-- `credentials`. -/
def ProcessState.credentials (p : ProcessState) : Credentials :=
  ⟨p.uids,⟨p.capEffective,p.capPermitted,p.capInheritable⟩⟩

inductive Errno
  | perm
  | inval
  deriving DecidableEq

/-- The kernel knows the capabilities up to its last. -/
structure Kernel where
  lastCap : Fin 64

abbrev Syscall := ProcessState → Except Errno ProcessState

/-- `PR_CAP_AMBIENT_CLEAR_ALL`. -/
def clearAmbient : Syscall := fun p => .ok {p with capAmbient := ∅}

/-- `capset`: capabilities are never added to the permitted set, and the ambient set keeps to
the permitted and inheritable ones. -/
def capset (sets : CapabilitySets) : Syscall := fun p =>
  if (capSetpcap ∉ p.capEffective ∧ ¬sets.inheritable ⊆ p.capInheritable ∪ p.capPermitted) ∨
      ¬sets.inheritable ⊆ p.capInheritable ∪ p.capBounding ∨ ¬sets.permitted ⊆ p.capPermitted ∨
      ¬sets.effective ⊆ sets.permitted then .error .perm
  else .ok {p with
    capEffective := sets.effective
    capPermitted := sets.permitted
    capInheritable := sets.inheritable
    capAmbient := p.capAmbient ∩ (sets.permitted ∩ sets.inheritable) }

/-- `PR_CAPBSET_DROP`. -/
def dropBounding (k : Kernel) (p : ProcessState) (n : Fin 64) : Except Errno ProcessState :=
  if capSetpcap ∉ p.capEffective then .error .perm
  else if k.lastCap < n then .error .inval
  else .ok {p with capBounding := p.capBounding.erase n}

/-- `PR_SET_SECUREBITS`: what is locked stays as it is. -/
def prctlSecureBits (bits : SecureBits) : Syscall := fun p =>
  if (∃ f, .lock f ∈ p.secureBits ∧ ¬(.flag f ∈ p.secureBits ↔ .flag f ∈ bits)) ∨
      (∃ f, .lock f ∈ p.secureBits ∧ .lock f ∉ bits) ∨ capSetpcap ∉ p.capEffective
  then .error .perm
  else .ok {p with secureBits := bits}

/-- `PR_SET_KEEPCAPS`. -/
def prctlKeepCaps (enable : Bool) : Syscall := fun p =>
  if .lock .keepCaps ∈ p.secureBits then .error .perm
  else if enable then .ok {p with secureBits := insert (.flag .keepCaps) p.secureBits}
  else .ok {p with secureBits := p.secureBits.erase (.flag .keepCaps)}

/-- `(uid_t)-1` and `(gid_t)-1`: no valid ID, and no change where an ID is set. -/
def noChange : UInt32 := 4294967295

/-- `NGROUPS_MAX`. -/
def ngroupsMax : ℕ := 65536

/-- `setgroups`: the kernel keeps the groups sorted. -/
def setgroups (groups : List UInt32) : Syscall := fun p =>
  if capSetgid ∉ p.capEffective then .error .perm
  else if ngroupsMax < groups.length ∨ noChange ∈ groups then .error .inval
  else .ok {p with groups := groups.insertionSort (· ≤ ·)}

/-- The IDs after a call that sets all three to `id`. -/
def Ids.set (ids : Ids) (id : UInt32) : Ids := if id = noChange then ids else .all id

/-- `setresgid` with all three IDs equal. -/
def setresgid (gid : UInt32) : Syscall := fun p =>
  if gid ≠ noChange ∧ capSetgid ∉ p.capEffective ∧ gid ∉ p.gids.toList then .error .perm
  else .ok {p with gids := p.gids.set gid}

/-- The last of the IDs that is root goes. -/
def dropsRoot (old new : Ids) : Bool := old.toList.contains 0 && !new.toList.contains 0

/-- What a UID change does to the capabilities: all are lost with the last UID 0 unless
`KEEPCAPS` is set, and the effective ones follow the effective UID. -/
def fixSetuid (old : Ids) (p : ProcessState) : ProcessState :=
  if .flag .noSetuidFixup ∈ p.secureBits then p
  else
    let p := if dropsRoot old p.uids then
        if .flag .keepCaps ∈ p.secureBits then {p with capAmbient := ∅}
        else {p with capPermitted := ∅, capEffective := ∅, capAmbient := ∅}
      else p
    if old.effective = 0 ∧ p.uids.effective ≠ 0 then {p with capEffective := ∅}
    else if old.effective ≠ 0 ∧ p.uids.effective = 0 then {p with capEffective := p.capPermitted}
    else p

/-- `setresuid` with all three IDs equal. -/
def setresuid (uid : UInt32) : Syscall := fun p =>
  if uid ≠ noChange ∧ capSetuid ∉ p.capEffective ∧ uid ∉ p.uids.toList then .error .perm
  else .ok (fixSetuid p.uids {p with uids := p.uids.set uid})

/-! ### Applying and verifying -/

/-- The loop of `read_set`: it ends at the first capability the kernel does not know. -/
def readSetLoop (isSet : Fin 64 → Except Errno Bool) :
    List (Fin 64) → CapabilitySet → Except Errno CapabilitySet
  | [], bits => .ok bits
  | n::ns, bits =>
    match isSet n with
    | .ok true => readSetLoop isSet ns (insert n bits)
    | .ok false => readSetLoop isSet ns bits
    | .error e => if e = .inval ∧ 0 < n then .ok bits else .error e

/-- `read_set`. -/
def readSet (isSet : Fin 64 → Except Errno Bool) : Except Errno CapabilitySet :=
  readSetLoop isSet (List.finRange 64) ∅

/-- `PR_CAPBSET_READ` or `PR_CAP_AMBIENT_IS_SET` on the set. -/
def isInSet (k : Kernel) (set : CapabilitySet) (n : Fin 64) : Except Errno Bool :=
  if k.lastCap < n then .error .inval else .ok (n ∈ set)

/-- `read_self`. -/
def readSelf (k : Kernel) (p : ProcessState) : Except Errno ProcessState := do
  let bounding ← readSet (isInSet k p.capBounding)
  let ambient ← readSet (isInSet k p.capAmbient)
  .ok {p with capBounding := bounding, capAmbient := ambient}

/-- `drop_bounding_except`. -/
def dropBoundingExcept (k : Kernel) (keep : CapabilitySet) : Syscall := fun p => do
  let bits ← readSet (isInSet k p.capBounding)
  ((List.finRange 64).filter (· ∈ bits \ keep)).foldlM (dropBounding k) p

/-- `apply_op`. -/
def applyOp (k : Kernel) (p : ProcessState) : Op → Except Errno ProcessState
  | .clearAmbient => clearAmbient p
  | .setCaps sets => capset sets p
  | .dropBoundingExcept keep => dropBoundingExcept k keep p
  | .setSecureBits bits => prctlSecureBits (p.secureBits ∪ bits) p
  | .setKeepCaps enable => prctlKeepCaps enable p
  | .setGroups groups => setgroups groups p
  | .setResGid gid => setresgid gid p
  | .setResUid uid => setresuid uid p
  | .setNoNewPrivs => .ok {p with noNewPrivs := true}

/-- `{:#x}`. -/
def hex (n : ℕ) : String := "0x" ++ String.ofList (Nat.toDigits 16 n)

/-- `sorted`. -/
def sorted (groups : List UInt32) : List UInt32 := (groups.insertionSort (· ≤ ·)).dedup

/-- The problems that `verify` collects with the groups. -/
def groupProblems (status : ProcessState) : Option FinalGroups → List String
  | none => []
  | some expected =>
    (if status.gids.toList.any (· ≠ expected.gid) then
      ["GIDs " ++ toString status.gids.toList ++ ", expected all " ++ toString expected.gid]
      else [])++
    if sorted status.groups ≠ sorted expected.groups then
      ["supplementary groups " ++ toString status.groups ++ ", expected " ++
        toString expected.groups]
    else []

/-- The problem with a set of capabilities. -/
def capsProblem (label : String) (actual expected : CapabilitySet) : List String :=
  if actual ≠ expected then
    [label ++ " capabilities " ++ hex actual.bits ++ ", expected " ++ hex expected.bits]
  else []

/-- The problem with the securebits that an operation set. -/
def secureBitsProblem (status : ProcessState) : Op → List String
  | .setSecureBits bits =>
    if ¬bits ⊆ status.secureBits then
      ["securebits " ++ hex status.secureBits.bits ++ ", expected at least " ++ hex bits.bits]
    else []
  | _ => []

def Op.dropsBounding : Op → Bool
  | .dropBoundingExcept _ => true
  | _ => false

/-- The problems that `verify` finds, in its order. -/
def problems (plan : PrivilegePlan) (status : ProcessState) : List String :=
  groupProblems status plan.finalGroups++
  (if status.uids.toList.any (· ≠ plan.finalUid) then
    ["UIDs " ++ toString status.uids.toList ++ ", expected all " ++ toString plan.finalUid]
    else [])++
  capsProblem "effective" status.capEffective plan.finalCaps++
  capsProblem "permitted" status.capPermitted plan.finalCaps++
  (if status.capInheritable ≠ ∅ then
    ["inheritable capabilities " ++ hex status.capInheritable.bits] else [])++
  (if status.capAmbient ≠ ∅ then
    ["ambient capabilities " ++ hex status.capAmbient.bits] else [])++
  (if !status.noNewPrivs then ["no_new_privs is not set"] else [])++
  plan.ops.flatMap (secureBitsProblem status)++
  if plan.ops.any Op.dropsBounding ∧ ¬status.capBounding ⊆ plan.finalCaps then
    ["bounding set " ++ hex status.capBounding.bits ++ " exceeds " ++ hex plan.finalCaps.bits]
  else []

/-- `verify`. -/
def verify (plan : PrivilegePlan) (status : ProcessState) : Except String Unit :=
  if problems plan status = [] then .ok ()
  else .error (String.intercalate "; " (problems plan status))

inductive ApplyError
  | multiThreaded (threads : ℕ)
  | readState (source : Errno)
  | op (op : Op) (source : Errno)
  | verification (problems : String)
  deriving DecidableEq

/-- The loop over the operations in `apply`. -/
def applyOps (k : Kernel) (p : ProcessState) (ops : List Op) : Except ApplyError ProcessState :=
  ops.foldlM (fun p op => (applyOp k p op).mapError (.op op)) p

/-- `apply`. -/
def apply (k : Kernel) (plan : PrivilegePlan) (p : ProcessState) :
    Except ApplyError ProcessState := do
  let before ← (readSelf k p).mapError .readState
  if before.threads ≠ 1 then .error (.multiThreaded before.threads)
  else
    let p ← applyOps k p plan.ops
    let after ← (readSelf k p).mapError .readState
    (verify plan after).mapError .verification
    .ok after

end Byssus.Privileges
