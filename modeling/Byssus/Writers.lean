import Byssus.Durable
import Byssus.Library.Hoare
import Byssus.StateStore

/-! Processes that share a state directory.  Any number of them start, read and write the state file
and end, each call of one between any two of another; only those that hold the lock write. -/
namespace Byssus

open CrashFs

namespace Writers

/-- Where a process is in `write_atomically`, or in what `save` does when that has failed. -/
inductive Saving
  | openat
  | fchmod (file : ℕ)
  /-- What `write_all` has yet to write. -/
  | write (file : ℕ) (rest : List UInt8)
  | syncAll (file : ℕ)
  | renameat
  | syncDir
  | unlinkat

/-- What a process with the lock has read and written. -/
structure Session where
  /-- What the state file held. -/
  loaded : Option (List UInt8)
  /-- What was given to `save`. -/
  given : List State
  state : State

inductive Stage
  /-- It has not started, has ended, or does nothing with the file. -/
  | out
  /-- `load_read_only`, with the file open. -/
  | reading (file : ℕ)
  /-- After `StateLock::acquire`. -/
  | locked
  /-- `load_for_write`, with the file open. -/
  | loading (file : ℕ)
  /-- The file could not be decoded.  `load_inner` would rename it aside, and the process would go
  on without records; but no file is reached that does not read back (`Consistent.accepted`), so
  the process does nothing more here. -/
  | rejected
  | serving (session : Session)
  /-- The place in the list of what all processes gave to `save`, and how far that has come. -/
  | saving (session : Session) (number : ℕ) (stage : Saving)

/-- The process holds the lock. -/
def Stage.Inside : Stage → Prop
  | .out | .reading _ => False
  | .locked | .loading _ | .rejected | .serving _ | .saving .. => True

variable {P : Type} [DecidableEq P]

structure System (P : Type) where
  dir : StateDir
  holder : Option P
  stage : P → Stage
  /-- What was given to `save`, and the last with which it returned. -/
  given : List State
  last : Option ℕ

/-- A call of `save` that succeeds, but for the last of each way through it. -/
inductive Call (contents : List UInt8) : Saving → StateDir → Saving → StateDir → Prop
  | openat (fs : StateDir) :
      Call contents .openat fs (.fchmod (fs.openTrunc .tmpFile).1) (fs.openTrunc .tmpFile).2
  | fchmod (file : ℕ) (fs : StateDir) : Call contents (.fchmod file) fs (.write file contents) fs
  | write (file : ℕ) (chunk rest : List UInt8) (fs : StateDir) :
      Call contents (.write file (chunk++rest)) fs (.write file rest) (fs.write file chunk)
  | written (file : ℕ) (fs : StateDir) : Call contents (.write file []) fs (.syncAll file) fs
  | syncAll (file : ℕ) (fs : StateDir) :
      Call contents (.syncAll file) fs .renameat (fs.syncFile file)
  | renameat {fs fs' : StateDir} (h : fs.rename .tmpFile .stateFile = some fs') :
      Call contents .renameat fs .syncDir fs'

namespace System

/-- The process goes on to a stage. -/
def goto (w : System P) (p : P) (stage : Stage) : System P :=
  {w with stage := Function.update w.stage p stage}

/-- The process ends, and the lock that it may hold is released. -/
def leave (w : System P) (p : P) : System P :=
  {w.goto p .out with holder := if w.holder = some p then none else w.holder}

/-- All processes end with the power. -/
def crash (w : System P) (dir' : StateDir) : System P :=
  {w with dir := dir', holder := none, stage := fun _ => .out}

end System

/-- A step of a process.  A process can end at any time, and a call can fail with or without its
effect. -/
inductive Step (f : FileFormat) (w : System P) : System P → Prop
  | openForReading {p : P} {file : ℕ} (hp : w.stage p = .out)
      (hf : w.dir.dir .stateFile = some file) : Step f w (w.goto p (.reading file))
  | acquire {p : P} (hp : w.stage p = .out) (hlock : w.holder = none) :
      Step f w {w.goto p .locked with holder := some p}
  | missing {p : P} (hp : w.stage p = .locked) (hf : w.dir.dir .stateFile = none) :
      Step f w (w.goto p (.serving ⟨none,[],.empty⟩))
  | openForWrite {p : P} {file : ℕ} (hp : w.stage p = .locked)
      (hf : w.dir.dir .stateFile = some file) : Step f w (w.goto p (.loading file))
  | load {p : P} {file : ℕ} {s : State} (hp : w.stage p = .loading file)
      (hd : f.decode (w.dir.files file).content = .ok s) :
      Step f w (w.goto p (.serving ⟨some (w.dir.files file).content,[],s⟩))
  | reject {p : P} {file : ℕ} {e : DecodeError} (hp : w.stage p = .loading file)
      (hd : f.decode (w.dir.files file).content = .error e) : Step f w (w.goto p .rejected)
  /-- The records change as steps are executed. -/
  | change {p : P} {session : Session} {s : State} (hp : w.stage p = .serving session)
      (hs : s.Storable) : Step f w (w.goto p (.serving {session with state := s}))
  | save {p : P} {session : Session} (hp : w.stage p = .serving session) :
      Step f w {w.goto p (.saving {session with given := session.given++[session.state]}
        w.given.length .openat) with given := w.given++[session.state]}
  | call {p : P} {session : Session} {number : ℕ} {stage stage' : Saving} {dir' : StateDir}
      (hp : w.stage p = .saving session number stage)
      (hc : Call (f.encode session.state) stage w.dir stage' dir') :
      Step f w {w.goto p (.saving session number stage') with dir := dir'}
  | failed {p : P} {session : Session} {number : ℕ} {stage : Saving}
      (hp : w.stage p = .saving session number stage) :
      Step f w (w.goto p (.saving session number .unlinkat))
  | failedSync {p : P} {session : Session} {number : ℕ}
      (hp : w.stage p = .saving session number .syncDir) :
      Step f w {w.goto p (.saving session number .unlinkat) with dir := w.dir.syncDir}
  /-- `save` has returned `Ok`. -/
  | saved {p : P} {session : Session} {number : ℕ}
      (hp : w.stage p = .saving session number .syncDir) :
      Step f w {w.goto p (.serving session) with dir := w.dir.syncDir, last := some number}
  /-- `save` has returned the error; the temporary file may still be there. -/
  | unsaved {p : P} {session : Session} {number : ℕ}
      (hp : w.stage p = .saving session number .unlinkat) :
      Step f w (w.goto p (.serving session))
  | unlinked {p : P} {session : Session} {number : ℕ} {dir' : StateDir}
      (hp : w.stage p = .saving session number .unlinkat)
      (hd : w.dir.unlink .tmpFile = some dir') :
      Step f w {w.goto p (.serving session) with dir := dir'}
  | leave (p : P) : Step f w (w.leave p)
  | powerLoss {dir' : StateDir} (hc : w.dir.Crashes dir') :
      Step f w (w.crash dir')

/-- The systems that a directory without a state file comes to. -/
inductive Reached (f : FileFormat) : System P → Prop
  | start {dir : StateDir} (hpending : dir.pending = []) (hstate : dir.base .stateFile = none) :
      Reached f ⟨dir,none,fun _ => .out,[],none⟩
  | step {w w' : System P} (h : Reached f w) (hs : Step f w w') : Reached f w'

/-! ### What one save keeps -/

/-- What is known of the directory at each call, for the contents to be written. -/
def Saving.Ok (contents : List UInt8) (fs : StateDir) : Saving → Prop
  | .openat | .unlinkat => True
  | .fchmod file => fs.dir .tmpFile = some file ∧ (fs.files file).content = []
  | .write file rest => fs.dir .tmpFile = some file ∧ (fs.files file).content++rest = contents
  | .syncAll file => fs.dir .tmpFile = some file ∧ (fs.files file).content = contents
  | .renameat => ∃ file, fs.dir .tmpFile = some file ∧ fs.files file = ⟨contents,true⟩
  | .syncDir => fs.read .stateFile = some contents

/-- The file is not the one that is written, and holds the bytes. -/
structure Sealed (fs : StateDir) (file : ℕ) (bytes : List UInt8) : Prop where
  made : file < fs.fresh
  apart : fs.dir .tmpFile ≠ some file
  content : (fs.files file).content = bytes

section
variable {fs fs' : StateDir} {file i : ℕ} {bytes contents : List UInt8}

theorem Sealed.setFile (h : Sealed fs i bytes) (hf : fs.dir .tmpFile = some file)
    (new : File UInt8) : Sealed (fs.setFile file new) i bytes := by
  have hne : i ≠ file := fun he => h.apart (he ▸ hf)
  exact ⟨h.made,h.apart,by simpa [Fs.setFile,hne] using h.content⟩

theorem Sealed.openTrunc (h : Sealed fs i bytes) : Sealed (fs.openTrunc .tmpFile).2 i bytes := by
  unfold Fs.openTrunc
  cases hf : fs.dir .tmpFile with
  | some file => exact h.setFile hf _
  | none =>
    have hne : i ≠ fs.fresh := h.made.ne
    exact ⟨Nat.lt_succ_of_lt h.made,by simp [Fs.create,DirOp.apply,hne.symm],
      by simpa [Fs.create,Fs.change,Fs.alloc,hne] using h.content⟩

theorem Sealed.rename (h : Sealed fs i bytes) (hr : fs.rename .tmpFile .stateFile = some fs') :
    Sealed fs' i bytes := by
  unfold Fs.rename at hr
  split at hr
  · cases hr
    exact ⟨h.made,by simp [DirOp.apply],h.content⟩
  · cases hr

theorem Sealed.unlink (h : Sealed fs i bytes) (hr : fs.unlink .tmpFile = some fs') :
    Sealed fs' i bytes := by
  unfold Fs.unlink at hr
  split at hr
  · cases hr
    exact ⟨h.made,by simp [DirOp.apply],h.content⟩
  · cases hr

/-- The state file is what it was, or what is written. -/
def Replaced (contents : List UInt8) (t t' : Durable UInt8) : Prop :=
  t' = t ∨ t' = t.replace contents

theorem Call.keeps {stage stage' : Saving} (h : Call contents stage fs stage' fs')
    (hg : fs.Guarded .stateFile .tmpFile) (ha : stage.Ok contents fs) :
    fs'.Guarded .stateFile .tmpFile ∧ stage'.Ok contents fs' ∧
      Replaced contents (fs.durable .stateFile) (fs'.durable .stateFile) ∧
      ∀ file bytes, Sealed fs file bytes → Sealed fs' file bytes := by
  cases h with
  | openat fs =>
    obtain ⟨hg',hd,hdir,hcontent⟩ := hg.openTrunc (by decide)
    exact ⟨hg',⟨hdir,hcontent⟩,.inl hd,fun _ _ hs => hs.openTrunc⟩
  | fchmod file fs =>
    exact ⟨hg,⟨ha.1,by rw [ha.2]; rfl⟩,.inl rfl,fun _ _ hs => hs⟩
  | write file chunk rest fs =>
    obtain ⟨hg',hd⟩ := hg.write ha.1 chunk
    refine ⟨hg',⟨ha.1,?_⟩,.inl hd,fun _ _ hs => hs.setFile ha.1 _⟩
    rw [← ha.2]
    simp [Fs.write,Fs.setFile]
  | written file fs =>
    exact ⟨hg,⟨ha.1,by rw [← ha.2,List.append_nil]⟩,.inl rfl,fun _ _ hs => hs⟩
  | syncAll file fs =>
    obtain ⟨hg',hd⟩ := hg.syncFile ha.1
    refine ⟨hg',⟨file,ha.1,?_⟩,.inl hd,fun _ _ hs => hs.setFile ha.1 _⟩
    simp [Fs.syncFile,Fs.setFile,ha.2]
  | renameat hr =>
    obtain ⟨file,hdir,hfile⟩ := ha
    obtain ⟨fs'',hfs,hg',hd⟩ := hg.rename (by decide) hdir (by rw [hfile])
    rw [hr] at hfs
    cases hfs
    rw [hfile] at hd
    exact ⟨hg',congrArg Durable.now hd,.inr hd,fun _ _ hs => hs.rename hr⟩

end

/-! ### A run of `save` -/

/-- One step after another. -/
abbrev Steps (f : FileFormat) : System P → System P → Prop := Relation.ReflTransGen (Step f)

/-- The process has come to a stage of `save`, and left the directory like this. -/
def Saves (f : FileFormat) (w : System P) (p : P) (session : Session) (number : ℕ)
    (stage : Saving) (fs : StateDir) : Prop :=
  Steps f w {w.goto p (.saving session number stage) with dir := fs}

/-- Where a process is when `save` has returned, or when the process has ended in it. -/
def Ended (f : FileFormat) (w : System P) (p : P) (session : Session) (number : ℕ) :
    Except StateStore.Fault Unit → StateDir → Prop
  | .ok (),fs => Steps f w {w.goto p (.serving session) with dir := fs, last := some number}
  | .error .failed,fs => Steps f w {w.goto p (.serving session) with dir := fs}
  | .error .killed,fs => Steps f w {w.leave p with dir := fs}

namespace System

variable (w : System P) (p : P) (stage stage' : Stage) (fs : StateDir)

@[simp] theorem goto_stage : (w.goto p stage).stage p = stage := by simp [goto]

theorem goto_self (h : w.stage p = stage) : w.goto p stage = w := by
  subst h
  simp [goto]

@[simp] theorem goto_goto : ({w.goto p stage with dir := fs}).goto p stage' =
    {w.goto p stage' with dir := fs} := by simp [goto]

@[simp] theorem goto_leave : ({w.goto p stage with dir := fs}).leave p =
    {w.leave p with dir := fs} := by
  simp only [leave,goto,Function.update_idem]
  congr

end System

open StateStore Program Prog

section
variable {f : FileFormat} {w : System P} {p : P} {session : Session} {number : ℕ}
  {stage stage' : Saving} {fs fs' : StateDir}

theorem Saves.call (h : Saves f w p session number stage fs)
    (hc : Call (f.encode session.state) stage fs stage' fs') :
    Saves f w p session number stage' fs' := by
  have hs := Step.call (f := f) (w := {w.goto p (.saving session number stage) with dir := fs})
    (w.goto_stage p _) hc
  rw [System.goto_goto] at hs
  exact h.tail hs

theorem Saves.failed (h : Saves f w p session number stage fs) :
    Saves f w p session number .unlinkat fs := by
  have hs := Step.failed (f := f) (w := {w.goto p (.saving session number stage) with dir := fs})
    (w.goto_stage p _)
  rw [System.goto_goto] at hs
  exact h.tail hs

theorem Saves.failedSync (h : Saves f w p session number .syncDir fs) :
    Saves f w p session number .unlinkat fs.syncDir := by
  have hs := Step.failedSync (f := f)
    (w := {w.goto p (.saving session number .syncDir) with dir := fs}) (w.goto_stage p _)
  rw [System.goto_goto] at hs
  exact h.tail hs

theorem Saves.saved (h : Saves f w p session number .syncDir fs) :
    Ended f w p session number (.ok ()) fs.syncDir := by
  have hs := Step.saved (f := f)
    (w := {w.goto p (.saving session number .syncDir) with dir := fs}) (w.goto_stage p _)
  rw [System.goto_goto] at hs
  exact h.tail hs

theorem Saves.unsaved (h : Saves f w p session number .unlinkat fs) :
    Ended f w p session number (.error .failed) fs := by
  have hs := Step.unsaved (f := f)
    (w := {w.goto p (.saving session number .unlinkat) with dir := fs}) (w.goto_stage p _)
  rw [System.goto_goto] at hs
  exact h.tail hs

theorem Saves.unlinked (h : Saves f w p session number .unlinkat fs)
    (hd : fs.unlink .tmpFile = some fs') :
    Ended f w p session number (.error .failed) fs' := by
  have hs := Step.unlinked (f := f)
    (w := {w.goto p (.saving session number .unlinkat) with dir := fs}) (w.goto_stage p _) hd
  rw [System.goto_goto] at hs
  exact h.tail hs

theorem Saves.killed (h : Saves f w p session number stage fs) :
    Ended f w p session number (.error .killed) fs := by
  have hs := Step.leave (f := f) (w := {w.goto p (.saving session number stage) with dir := fs}) p
  rw [System.goto_leave] at hs
  exact h.tail hs

/-- The process may be killed when `save` has failed. -/
theorem Ended.killed (h : Ended f w p session number (.error .failed) fs) :
    Ended f w p session number (.error .killed) fs := by
  have hs := Step.leave (f := f) (w := {w.goto p (.serving session) with dir := fs}) p
  rw [System.goto_leave] at hs
  exact h.tail hs

/-- A call of `writeAtomically` that succeeds is a call of the system, and so is one that fails with
its effect. -/
theorem Saves.syscall {env : SaveEnv} {call : StateStore.Call} {α : Type} (next : α → Saving)
    {op : StateDir → Option (α × StateDir)} (hop : ∀ fs a fs', op fs = some (a,fs') →
      Call (f.encode session.state) stage fs (next a) fs') :
    Triple (Saves f w p session number stage) (StateStore.syscall env call op)
      (fun a => Saves f w p session number (next a))
      fun _ fs => ∃ stage, Saves f w p session number stage fs := by
  intro fs hs
  simp only [StateStore.syscall,run]
  cases hf : env.fault call with
  | none =>
    cases hr : op fs with
    | none => exact ⟨by simp,by simpa using ⟨stage,hs⟩⟩
    | some r => exact ⟨by simpa using hs.call (hop fs r.1 r.2 hr),by simp⟩
  | some fault =>
    cases hr : op fs with
    | none => exact ⟨by simp,by simpa using ⟨stage,hs⟩⟩
    | some r =>
      cases ht : env.took call with
      | true => exact ⟨by simp,by simpa using ⟨_,hs.call (hop fs r.1 r.2 hr)⟩⟩
      | false => exact ⟨by simp,by simpa using ⟨stage,hs⟩⟩

theorem Saves.syncDir {env : SaveEnv} :
    Triple (Saves f w p session number .syncDir)
      (StateStore.syscall env .syncDir fun fs : StateDir => some ((),fs.syncDir))
      (fun _ => Ended f w p session number (.ok ()))
      fun _ fs => ∃ stage, Saves f w p session number stage fs := by
  intro fs hs
  simp only [StateStore.syscall,run]
  cases hf : env.fault .syncDir with
  | none => exact ⟨by simpa using hs.saved,by simp⟩
  | some fault =>
    cases ht : env.took .syncDir with
    | true => exact ⟨by simp,by simpa using ⟨_,hs.failedSync⟩⟩
    | false => exact ⟨by simp,by simpa using ⟨_,hs⟩⟩

theorem writeAtomically_saves (env : SaveEnv) :
    Triple (Saves f w p session number .openat) (writeAtomically env (f.encode session.state))
      (fun _ => Ended f w p session number (.ok ()))
      fun _ fs => ∃ stage, Saves f w p session number stage fs := by
  refine .bind (Saves.syscall .fchmod ?_) fun file => ?_
  · intro fs file fs' h
    have h := Option.some.inj h
    have hcall : Call (f.encode session.state) .openat fs _ _ := .openat fs
    rwa [h] at hcall
  refine .bind (Saves.syscall (fun _ => .write file (f.encode session.state)) ?_) fun _ => ?_
  · intro fs _ fs' h
    cases h
    exact .fchmod file fs
  refine .bind (.modify (R := fun _ => Saves f w p session number
    (.write file ((f.encode session.state).drop env.written))) ?_) fun _ => ?_
  · intro fs hs
    have hcall : Call (f.encode session.state) (.write file (_++_)) fs _ _ :=
      .write file ((f.encode session.state).take env.written)
        ((f.encode session.state).drop env.written) fs
    rw [List.take_append_drop] at hcall
    exact hs.call hcall
  refine .bind (Saves.syscall (fun _ => .write file []) ?_) fun _ => ?_
  · intro fs _ fs' h
    cases h
    have hcall : Call (f.encode session.state) (.write file (_++[])) fs _ _ :=
      .write file ((f.encode session.state).drop env.written) [] fs
    rwa [List.append_nil] at hcall
  refine .bind (Q := fun _ => Saves f w p session number .renameat) ?_ fun _ =>
    .bind (Saves.syscall (fun _ => .syncDir) ?_) fun _ => Saves.syncDir
  · refine .mono (Saves.syscall (fun _ => .renameat) ?_) (fun fs hs => hs.call (.written file fs))
      (fun _ _ hs => hs) fun _ _ hs => hs
    intro fs _ fs' h
    cases h
    exact .syncAll file fs
  · intro fs _ fs' h
    obtain ⟨fs'',hr,he⟩ := Option.map_eq_some_iff.mp h
    cases he
    exact .renameat hr

/-- `save` returns an error, whether the temporary file is removed or not. -/
theorem Saves.unlink (env : SaveEnv) :
    Triple (fun fs => ∃ stage, Saves f w p session number stage fs)
      (StateStore.syscall env .unlinkat fun fs : StateDir => (fs.unlink .tmpFile).map ((),·))
      (fun _ => Ended f w p session number (.error .failed))
      fun _ => Ended f w p session number (.error .failed) := by
  rintro fs ⟨stage,hs⟩
  have hunsaved := hs.failed.unsaved
  have hunlinked : ∀ fs', fs.unlink .tmpFile = some fs' →
      Ended f w p session number (.error .failed) fs' := fun fs' => hs.failed.unlinked
  simp only [StateStore.syscall,run]
  cases hf : env.fault .unlinkat <;> cases hr : fs.unlink .tmpFile with
  | none => exact ⟨by simp,by simpa using hunsaved⟩
  | some fs' =>
    cases ht : env.took .unlinkat <;> constructor <;> simp [hunsaved,hunlinked fs' hr]

theorem cleanUp_ended (env : SaveEnv) (result : Except StateStore.Fault Unit) :
    Triple (fun fs => (result = .ok () → Ended f w p session number (.ok ()) fs) ∧
        ∀ e, result = .error e → ∃ stage, Saves f w p session number stage fs)
      (cleanUp env (fun fs : StateDir => (fs.unlink .tmpFile).map ((),·)) result)
      (fun _ => Ended f w p session number (.ok ()))
      fun e => Ended f w p session number (.error e) := by
  rcases result with (_ | _) | _
  · refine .bind (.mono (Saves.unlink env).attempt (fun fs hs => hs.2 _ rfl)
      (fun _ _ h => h) fun _ _ h => h) fun removed => ?_
    rcases removed with (_ | _) | _
    · exact .fail fun fs hs => hs.2 _ rfl
    · exact .fail fun fs hs => (hs.2 _ rfl).killed
    · exact .fail fun fs hs => hs.1 _ rfl
  · exact .fail fun fs hs => (hs.2 _ rfl).elim fun _ h => h.killed
  · exact .pure fun fs hs => hs.1 rfl

/-- Every run of `save`, whichever calls fail or are the last, is a run of the system in which the
other processes do nothing. -/
theorem ended_of_save {env : SaveEnv} {r : Except StateStore.Fault Unit}
    (hp : w.stage p = .saving session number .openat)
    (h : (StateStore.save env f session.state).run w.dir = (r,fs)) :
    Ended f w p session number r fs := by
  have hsave : Triple (Saves f w p session number .openat) (StateStore.save env f session.state)
      (fun _ => Ended f w p session number (.ok ()))
      fun e => Ended f w p session number (.error e) :=
    .bind (writeAtomically_saves env).attempt fun result =>
      (cleanUp_ended env result).mono (fun fs hs => ⟨hs.1 (),hs.2⟩) (fun _ _ h => h)
        fun _ _ h => h
  have hstart : Saves f w p session number .openat w.dir := by
    have : {w.goto p (.saving session number .openat) with dir := w.dir} = w := w.goto_self p _ hp
    rw [Saves,this]
  cases r with
  | ok _ => exact (hsave _ hstart).1 _ _ h
  | error e => exact (hsave _ hstart).2 _ _ h

end

/-! ### What every step keeps -/

/-- What is known of a process while it has the lock. -/
structure Session.Ok (f : FileFormat) (given : List State) (fs : StateDir) (session : Session) :
    Prop where
  storable : session.state.Storable
  mem : ∀ s ∈ session.given, s ∈ given
  shown : fs.read .stateFile = session.loaded ∨
    ∃ s ∈ session.given, fs.read .stateFile = some (f.encode s)

/-- What is known of the directory at each stage of a process. -/
def Stage.Ok (f : FileFormat) (given : List State) (fs : StateDir) : Stage → Prop
  | .out | .locked => True
  | .reading file => ∃ s ∈ given, Sealed fs file (f.encode s)
  | .loading file => fs.dir .stateFile = some file ∧ ∃ s ∈ given, Sealed fs file (f.encode s)
  | .rejected => ∃ s ∈ given, ∃ e, f.decode (f.encode s) = .error e
  | .serving session => session.Ok f given fs
  | .saving session number stage => session.Ok f given fs ∧ session.state ∈ session.given ∧
      number+1 = given.length ∧ given[number]? = some session.state ∧
      stage.Ok (f.encode session.state) fs

structure Sound (f : FileFormat) (w : System P) : Prop where
  inside : ∀ p, (w.stage p).Inside ↔ w.holder = some p
  safe : Safe f w.given w.last w.dir
  storable : ∀ s ∈ w.given, s.Storable
  stage : ∀ p, (w.stage p).Ok f w.given w.dir

namespace Sound

variable {f : FileFormat} {w : System P} {p : P}

/-- A step that changes nothing but where a process is. -/
theorem goto (h : Sound f w) {stage : Stage} (hin : stage.Inside ↔ (w.stage p).Inside)
    (hok : stage.Ok f w.given w.dir) : Sound f (w.goto p stage) where
  inside := by
    intro q
    by_cases hq : q = p
    · subst hq
      simpa [System.goto,hin] using h.inside q
    · simpa [System.goto,hq] using h.inside q
  safe := h.safe
  storable := h.storable
  stage := by
    intro q
    by_cases hq : q = p
    · subst hq
      simpa [System.goto] using hok
    · simpa [System.goto,hq] using h.stage q

/-- A step of the process with the lock: the others have no more than files open that are not
written. -/
theorem write (h : Sound f w) (hp : (w.stage p).Inside) {stage : Stage} {dir' : StateDir}
    {given' : List State} {last' : Option ℕ} (hin : stage.Inside)
    (hsafe : Safe f given' last' dir') (hgiven : w.given ⊆ given')
    (hstorable : ∀ s ∈ given', s.Storable)
    (hsealed : ∀ file bytes, Sealed w.dir file bytes → Sealed dir' file bytes)
    (hok : stage.Ok f given' dir') :
    Sound f {w.goto p stage with dir := dir', given := given', last := last'} where
  inside := by
    intro q
    by_cases hq : q = p
    · subst hq
      simpa [System.goto,hin] using (h.inside q).mp hp
    · simpa [System.goto,hq] using h.inside q
  safe := hsafe
  storable := hstorable
  stage := by
    intro q
    by_cases hq : q = p
    · subst hq
      simpa [System.goto] using hok
    · have hout : ¬(w.stage q).Inside := by
        rw [h.inside q,(h.inside p).mp hp]
        exact fun he => hq (Option.some.inj he).symm
      have hq' := h.stage q
      simp only [System.goto,Function.update_of_ne hq]
      cases hs : w.stage q with
      | out => trivial
      | reading file =>
        rw [hs] at hq'
        obtain ⟨s,hmem,hseal⟩ := hq'
        exact ⟨s,hgiven hmem,hsealed _ _ hseal⟩
      | _ =>
        rw [hs] at hout
        exact absurd trivial hout

omit [DecidableEq P] in
/-- The file that is open for reading is one that was written as a whole. -/
theorem opened (h : Sound f w) {file : ℕ} (hf : w.dir.dir .stateFile = some file) :
    ∃ s ∈ w.given, Sealed w.dir file (f.encode s) := by
  have hrecent := h.safe.recent _ (w.dir.now_mem .stateFile)
  have hread : (w.dir.durable .stateFile).now = some (w.dir.files file).content := by
    simp [Fs.durable,Fs.read,hf]
  rw [hread] at hrecent
  obtain ⟨k,s,hk,hbytes,-⟩ := hrecent
  exact ⟨s,List.mem_of_getElem? hk,w.dir.dir_landing.lt hf,
    (h.safe.guarded _ w.dir.dir_landing file hf).2.2,hbytes⟩

end Sound

theorem Session.Ok.replaced {f : FileFormat} {given : List State} {fs fs' : StateDir}
    {session : Session} (h : session.Ok f given fs) (hs : session.state ∈ session.given)
    (hr : Replaced (f.encode session.state) (fs.durable .stateFile) (fs'.durable .stateFile)) :
    session.Ok f given fs' where
  storable := h.storable
  mem := h.mem
  shown := by
    rcases hr with hr | hr
    · have hread : fs'.read .stateFile = fs.read .stateFile := congrArg Durable.now hr
      rw [hread]
      exact h.shown
    · exact .inr ⟨_,hs,congrArg Durable.now hr⟩

/-- What is written may be what is left. -/
theorem safe_replaced {f : FileFormat} {given : List State} {last : Option ℕ} {fs fs' : StateDir}
    (h : Safe f given last fs) (hg : fs'.Guarded .stateFile .tmpFile) {s : State} {number : ℕ}
    (hlen : number+1 = given.length) (hs : given[number]? = some s)
    (hr : Replaced (f.encode s) (fs.durable .stateFile) (fs'.durable .stateFile)) :
    Safe f given last fs' where
  guarded := hg
  recent := by
    intro bytes hbytes
    rcases hr with hr | hr <;> rw [hr] at hbytes
    · exact h.recent bytes hbytes
    · rcases Set.mem_insert_iff.mp hbytes with rfl | hbytes
      · refine ⟨number,s,hs,rfl,fun n hn => ?_⟩
        have := h.last_lt n hn
        omega
      · exact h.recent bytes hbytes
  last_lt := h.last_lt

theorem Sealed.syncDir {fs : StateDir} {file : ℕ} {bytes : List UInt8}
    (h : Sealed fs file bytes) : Sealed fs.syncDir file bytes := ⟨h.made,h.apart,h.content⟩

namespace Sound

variable {f : FileFormat} {w w' : System P} {p : P}

theorem acquire (h : Sound f w) (hlock : w.holder = none) :
    Sound f {w.goto p .locked with holder := some p} where
  inside := by
    intro q
    by_cases hq : q = p
    · subst hq
      simp [System.goto,Stage.Inside]
    · have hq' := h.inside q
      rw [hlock] at hq'
      simpa [System.goto,hq,Ne.symm hq] using hq'
  safe := h.safe
  storable := h.storable
  stage := by
    intro q
    by_cases hq : q = p
    · subst hq
      simp [System.goto,Stage.Ok]
    · simpa [System.goto,hq] using h.stage q

theorem leave (h : Sound f w) (p : P) : Sound f (w.leave p) where
  inside := by
    intro q
    have hq' := h.inside q
    by_cases hq : q = p
    · subst hq
      by_cases hh : w.holder = some q <;> simp [System.leave,System.goto,Stage.Inside,hh]
    · by_cases hh : w.holder = some p
      · rw [hh] at hq'
        simpa [System.leave,System.goto,hq,hh,Ne.symm hq] using hq'
      · simpa [System.leave,System.goto,hq,hh] using hq'
  safe := h.safe
  storable := h.storable
  stage := by
    intro q
    by_cases hq : q = p
    · subst hq
      simp [System.leave,System.goto,Stage.Ok]
    · simpa [System.leave,System.goto,hq] using h.stage q

omit [DecidableEq P] in
theorem crash (h : Sound f w) {dir' : StateDir} (hc : w.dir.Crashes dir') :
    Sound f (w.crash dir') where
  inside := by simp [System.crash,Stage.Inside]
  safe := by
    obtain ⟨hg,bytes,hbytes,hd⟩ := h.safe.guarded.crashes hc
    refine ⟨hg,fun r hr => ?_,h.safe.last_lt⟩
    simp only [System.crash,hd,Set.mem_singleton_iff] at hr
    rw [hr]
    exact h.safe.recent bytes hbytes
  storable := h.storable
  stage := fun _ => trivial

omit [DecidableEq P] in
/-- The directory has been synced, whether `save` learns of that or not. -/
theorem synced (h : Sound f w) : w.dir.syncDir.Guarded .stateFile .tmpFile ∧
    (w.dir.syncDir.durable .stateFile).after = {w.dir.read .stateFile} := by
  obtain ⟨hg,hd⟩ := h.safe.guarded.syncDir
  exact ⟨hg,by rw [hd]; rfl⟩

theorem step (h : Sound f w) (hs : Step f w w') : Sound f w' := by
  cases hs with
  | openForReading hp hf =>
    exact h.goto (by simp [hp,Stage.Inside]) (h.opened hf)
  | acquire hp hlock => exact h.acquire hlock
  | missing hp hf =>
    refine h.goto (by simp [hp,Stage.Inside]) ⟨.empty,by simp,.inl ?_⟩
    simp [Fs.read,hf]
  | openForWrite hp hf =>
    exact h.goto (by simp [hp,Stage.Inside]) ⟨hf,h.opened hf⟩
  | @load p file s hp hd =>
    have hok := h.stage p
    rw [hp] at hok
    refine h.goto (by simp [hp,Stage.Inside]) ⟨.of_decode hd,by simp,.inl ?_⟩
    simp [Fs.read,hok.1]
  | @reject p file e hp hd =>
    have hok := h.stage p
    rw [hp] at hok
    obtain ⟨-,s,hmem,hseal⟩ := hok
    refine h.goto (by simp [hp,Stage.Inside]) ⟨s,hmem,e,?_⟩
    rw [← hseal.content]
    exact hd
  | @change p session s hp hs =>
    have hok := h.stage p
    rw [hp] at hok
    exact h.goto (by simp [hp,Stage.Inside]) ⟨hs,hok.mem,hok.shown⟩
  | @save p session hp =>
    have hok := h.stage p
    rw [hp] at hok
    refine h.write (by rw [hp]; trivial) trivial ⟨h.safe.guarded,?_,?_⟩
      (List.subset_append_left _ _) ?_ (fun _ _ hseal => hseal) ⟨?_,?_,by simp,by simp,trivial⟩
    · exact fun bytes hbytes => (h.safe.recent bytes hbytes).mono _
    · intro n hn
      have := h.safe.last_lt n hn
      simp
      omega
    · intro s hs
      rcases List.mem_append.mp hs with hs | hs
      · exact h.storable s hs
      · rw [List.mem_singleton.mp hs]
        exact hok.storable
    · refine ⟨hok.storable,?_,hok.shown.imp_right (Exists.imp fun s =>
        And.imp_left (List.mem_append_left _))⟩
      intro s hs
      rcases List.mem_append.mp hs with hs | hs
      · exact List.mem_append_left _ (hok.mem s hs)
      · exact List.mem_append_right _ hs
    · simp
  | @call p session number stage stage' dir' hp hc =>
    have hok := h.stage p
    rw [hp] at hok
    obtain ⟨hsession,hmem,hlen,hnumber,hstage⟩ := hok
    obtain ⟨hg,hstage',hr,hsealed⟩ := hc.keeps h.safe.guarded hstage
    exact h.write (by rw [hp]; trivial) trivial (safe_replaced h.safe hg hlen hnumber hr)
      (List.Subset.refl _) h.storable hsealed
      ⟨hsession.replaced hmem hr,hmem,hlen,hnumber,hstage'⟩
  | @failed p session number stage hp =>
    have hok := h.stage p
    rw [hp] at hok
    obtain ⟨hsession,hmem,hlen,hnumber,-⟩ := hok
    exact h.goto (by simp [hp,Stage.Inside]) ⟨hsession,hmem,hlen,hnumber,trivial⟩
  | @failedSync p session number hp =>
    have hok := h.stage p
    rw [hp] at hok
    obtain ⟨hsession,hmem,hlen,hnumber,hread⟩ := hok
    refine h.write (by rw [hp]; trivial) trivial ⟨h.synced.1,?_,h.safe.last_lt⟩
      (List.Subset.refl _) h.storable (fun _ _ hseal => hseal.syncDir)
      ⟨⟨hsession.storable,hsession.mem,hsession.shown⟩,hmem,hlen,hnumber,trivial⟩
    rw [h.synced.2]
    intro bytes hbytes
    rw [Set.mem_singleton_iff.mp hbytes]
    exact h.safe.recent _ (w.dir.now_mem .stateFile)
  | @saved p session number hp =>
    have hok := h.stage p
    rw [hp] at hok
    obtain ⟨hsession,hmem,hlen,hnumber,hread⟩ := hok
    refine h.write (by rw [hp]; trivial) trivial ⟨h.synced.1,?_,?_⟩
      (List.Subset.refl _) h.storable (fun _ _ hseal => hseal.syncDir)
      ⟨hsession.storable,hsession.mem,hsession.shown⟩
    · rw [h.synced.2]
      intro bytes hbytes
      rw [Set.mem_singleton_iff.mp hbytes,hread]
      exact ⟨number,_,hnumber,rfl,by simp⟩
    · intro n hn
      cases hn
      exact hlen ▸ Nat.lt_succ_self number
  | @unsaved p session number hp =>
    have hok := h.stage p
    rw [hp] at hok
    exact h.goto (by simp [hp,Stage.Inside]) hok.1
  | @unlinked p session number dir' hp hd =>
    have hok := h.stage p
    rw [hp] at hok
    obtain ⟨hsession,hmem,hlen,hnumber,-⟩ := hok
    obtain ⟨hg,hdur⟩ := h.safe.guarded.unlink (by decide) hd
    exact h.write (by rw [hp]; trivial) trivial
      (safe_replaced h.safe hg hlen hnumber (.inl hdur)) (List.Subset.refl _) h.storable
      (fun _ _ hseal => hseal.unlink hd) (hsession.replaced hmem (.inl hdur))
  | leave p => exact h.leave p
  | powerLoss hc => exact h.crash hc

end Sound

theorem Reached.steps {f : FileFormat} {w w' : System P} (h : Reached f w) (hs : Steps f w w') :
    Reached f w' := by
  induction hs with
  | refl => exact h
  | tail _ hs ih => exact .step ih hs

theorem Reached.sound {f : FileFormat} {w : System P} (h : Reached f w) : Sound f w := by
  induction h with
  | start hpending hstate =>
    exact ⟨by simp [Stage.Inside],safe_start hpending hstate,by simp,fun _ => trivial⟩
  | step _ hs ih => exact ih.step hs

/-- What the lock is for. -/
structure Consistent (f : FileFormat) (w : System P) : Prop where
  /-- At most one process is past the lock. -/
  exclusive : ∀ p q, (w.stage p).Inside → (w.stage q).Inside → p = q
  /-- The state file is a whole one, not older than the last with which `save` returned. -/
  recent : Recent f w.given w.last (w.dir.read .stateFile)
  /-- So is what a power loss leaves of it. -/
  durable : ∀ dir', w.dir.Crashes dir' → Recent f w.given w.last (dir'.read .stateFile)
  /-- What a process reads was written as a whole, whatever is written meanwhile. -/
  whole : ∀ p file, w.stage p = .reading file ∨ w.stage p = .loading file →
    ∃ s ∈ w.given, (w.dir.files file).content = f.encode s
  /-- Nobody else has replaced what a process with the lock has read or written. -/
  own : ∀ p session, (w.stage p = .serving session ∨
      ∃ number stage, w.stage p = .saving session number stage) →
    w.dir.read .stateFile = session.loaded ∨
      ∃ s ∈ session.given, w.dir.read .stateFile = some (f.encode s)
  /-- The file is never taken for a corrupt one. -/
  accepted : (∀ s ∈ w.given, f.ReadsBack s.document) → ∀ p, w.stage p ≠ .rejected

/-- Processes with the lock write the state file one after another, and processes without it read
only what was written as a whole: in every interleaving of the calls of any number of processes,
which may start and end at any time, with calls that fail and with power losses. -/
theorem writers_consistent {f : FileFormat} {w : System P} (h : Reached f w) : Consistent f w where
  exclusive := by
    intro p q hp hq
    rw [h.sound.inside] at hp hq
    exact Option.some.inj (hp.symm.trans hq)
  recent := h.sound.safe.recent _ (w.dir.now_mem .stateFile)
  durable := fun dir' hc =>
    (h.sound.crash hc).safe.recent _ (dir'.now_mem .stateFile)
  whole := by
    intro p file hp
    have hok := h.sound.stage p
    rcases hp with hp | hp <;> rw [hp] at hok
    · obtain ⟨s,hs,hseal⟩ := hok
      exact ⟨s,hs,hseal.content⟩
    · obtain ⟨-,s,hs,hseal⟩ := hok
      exact ⟨s,hs,hseal.content⟩
  own := by
    intro p session hp
    have hok := h.sound.stage p
    rcases hp with hp | ⟨number,stage,hp⟩ <;> rw [hp] at hok
    · exact hok.shown
    · exact hok.1.shown
  accepted := by
    intro hf p hp
    have hok := h.sound.stage p
    rw [hp] at hok
    obtain ⟨s,hs,e,hd⟩ := hok
    rw [FileFormat.storable_round_trip (hf s hs) (h.sound.storable s hs)] at hd
    cases hd

/-! One process has saved and is killed in its next save, while another has the file open. -/
namespace SampleReader
open CutShort SampleStateFile

def started : System Bool := ⟨empty,none,fun _ => .out,[],none⟩
def locked : System Bool := {started.goto true .locked with holder := some true}
def loaded : System Bool := locked.goto true (.serving ⟨none,[],.empty⟩)

section
variable (f : FileFormat) (s : State)

def changed : System Bool := loaded.goto true (.serving ⟨none,[],s⟩)

def saving : System Bool :=
  {changed s with
    stage := Function.update (changed s).stage true (.saving ⟨none,[s],s⟩ 0 .openat)
    given := [s]}

def saved : System Bool :=
  {(saving s).goto true (.serving ⟨none,[s],s⟩) with dir := first f s, last := some 0}

def reading : System Bool := (saved f s).goto false (.reading 0)

def again : System Bool :=
  {reading f s with
    stage := Function.update (reading f s).stage true (.saving ⟨none,[s,s],s⟩ 1 .openat)
    given := [s,s]}

def ended : System Bool := {(again f s).leave true with dir := second f s}

theorem first_run : (StateStore.save fine f s).run empty = (.ok (),first f s) := rfl
theorem first_dir : (first f s).dir .stateFile = some 0 := rfl
theorem second_run : (StateStore.save killed f s).run (first f s) = (.error .killed,second f s) :=
  rfl

theorem reached_saved (hs : s.Storable) : Reached f (saved f s) := by
  have hstarted : Reached f started := .start rfl rfl
  have hlocked : Reached f locked := hstarted.step (.acquire rfl rfl)
  have hloaded : Reached f loaded := hlocked.step (.missing rfl rfl)
  have hidle : loaded.stage true = .serving ⟨none,[],.empty⟩ := rfl
  have hchanged : Reached f (changed s) := hloaded.step (.change hidle hs)
  have hserving : (changed s).stage true = .serving ⟨none,[],s⟩ := rfl
  have hsaving : Reached f (saving s) := hchanged.step (.save hserving)
  have hsaved : Ended f (saving s) true ⟨none,[s],s⟩ 0 (.ok ()) (first f s) :=
    ended_of_save rfl (first_run f s)
  exact hsaving.steps hsaved

theorem reached_ended (hs : s.Storable) : Reached f (ended f s) := by
  have hreading : Reached f (reading f s) :=
    (reached_saved f s hs).step (.openForReading rfl (first_dir f s))
  have hserving : (reading f s).stage true = .serving ⟨none,[s],s⟩ := rfl
  have hagain : Reached f (again f s) := hreading.step (.save hserving)
  have hended : Ended f (again f s) true ⟨none,[s,s],s⟩ 1 (.error .killed) (second f s) :=
    ended_of_save rfl (second_run f s)
  exact hagain.steps hended

end

theorem writers_consistent_run : Consistent format (ended format state) :=
  writers_consistent (reached_ended format state recorded.storable)

end SampleReader
end Writers
end Byssus
