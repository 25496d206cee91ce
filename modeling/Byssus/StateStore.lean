import Byssus.StateFile
import Byssus.Library.CrashFs
import Byssus.Library.Simulation

/-! `StateStore::save`, call by call.
Every call may fail or be the last of the process, in both cases with or without its effect, and
power may be lost between any two. -/
namespace Byssus
open Program Prog CrashFs

/-- `STATE_FILE_NAME` and `TMP_FILE_NAME`. -/
inductive StateName
  | stateFile | tmpFile
  deriving DecidableEq

/-- The state directory. -/
abbrev StateDir := Fs StateName UInt8

namespace StateStore

/-- `write` is the last `write` of `write_all`. -/
inductive Call
  | openat | fchmod | write | syncAll | renameat | syncDir | unlinkat
  deriving DecidableEq

inductive Fault
  | failed
  /-- The process ends in the call. -/
  | killed
  deriving DecidableEq

/-- What the system does with the calls of one save. -/
structure SaveEnv where
  fault : Call → Option Fault
  /-- A call with a fault has its effect all the same. -/
  took : Call → Bool
  /-- How much `write_all` has written before its last `write`. -/
  written : ℕ

section
variable {σ α : Type} (env : SaveEnv)

def syscall (call : Call) (op : σ → Option (α × σ)) : Prog σ Fault α := fun s =>
  match env.fault call,op s with
  | none,some (a,s') => (.ok a,s')
  | none,none => (.error .failed,s)
  | some fault,some (_,s') => (.error fault,if env.took call then s' else s)
  | some fault,none => (.error fault,s)

/-- An operation that nothing of a directory is changed by. -/
def unchanged (s : σ) : Option (Unit × σ) := some ((),s)

/-- `write_atomically`. -/
def writeAtomically (contents : List UInt8) : Prog StateDir Fault Unit := do
  let file ← syscall env .openat fun fs => some (fs.openTrunc .tmpFile)
  syscall env .fchmod unchanged
  modify fun fs => fs.write file (contents.take env.written)
  syscall env .write fun fs => some ((),fs.write file (contents.drop env.written))
  syscall env .syncAll fun fs => some ((),fs.syncFile file)
  syscall env .renameat fun fs => (fs.rename .tmpFile .stateFile).map ((),·)
  syscall env .syncDir fun fs => some ((),fs.syncDir)

/-- What `save` does with a result: the temporary file is removed after an error, and an error of
that is ignored. -/
def cleanUp (unlink : σ → Option (Unit × σ)) : Except Fault Unit → Prog σ Fault Unit
  | .ok () => pure ()
  | .error .killed => fail .killed
  | .error .failed => do
    let removed ← (syscall env .unlinkat unlink).attempt
    match removed with
    | .error .killed => fail .killed
    | _ => fail .failed

/-- `StateStore::save`. -/
def save (f : FileFormat) (s : State) : Prog StateDir Fault Unit := do
  let result ← (writeAtomically env (f.encode s)).attempt
  cleanUp env (fun fs => (fs.unlink .tmpFile).map ((),·)) result

/-! ### What a save is for -/

/-- A file is replaced as a whole, and then the replacement is made to last. -/
def replace (contents : List UInt8) : Prog (Durable UInt8) Fault Unit := do
  syscall env .openat unchanged
  syscall env .fchmod unchanged
  syscall env .write unchanged
  syscall env .syncAll unchanged
  syscall env .renameat fun t => some ((),t.replace contents)
  syscall env .syncDir fun t => some ((),t.flush)

def replaceState (contents : List UInt8) : Prog (Durable UInt8) Fault Unit := do
  let result ← (replace env contents).attempt
  cleanUp env unchanged result

/-- What a directory shows of the state file. -/
def Shows (fs : StateDir) (t : Durable UInt8) : Prop :=
  fs.Guarded .stateFile .tmpFile ∧ t = fs.durable .stateFile

/-- The temporary file is open. -/
def Opened (file : ℕ) (contents : List UInt8) (fs : StateDir) (t : Durable UInt8) : Prop :=
  Shows fs t ∧ fs.dir .tmpFile = some file ∧ (fs.files file).content = contents

variable {env}

/-- Both calls have their effects, or fail with them or without. -/
theorem syscall_simulates {τ β : Type} {R E : σ → τ → Prop} {Q : α → β → σ → τ → Prop}
    {call : Call} {op : σ → Option (α × σ)} {op' : τ → Option (β × τ)}
    (h : ∀ s t, R s t → E s t ∧ ∃ a s' b t', op s = some (a,s') ∧ op' t = some (b,t') ∧
      Q a b s' t' ∧ E s' t') :
    Simulates R (syscall env call op) (syscall env call op') Q E := by
  intro s t hr
  obtain ⟨he,a,s',b,t',hop,hop',hq,he'⟩ := h s t hr
  cases hf : env.fault call with
  | none => simpa [syscall,run,hf,hop,hop'] using hq
  | some fault =>
    cases ht : env.took call with
    | true => simpa [syscall,run,hf,hop,hop',ht] using he'
    | false => simpa [syscall,run,hf,hop,hop',ht] using he

variable {file : ℕ} {contents : List UInt8} {fs : StateDir} {t : Durable UInt8}

theorem Opened.write (h : Opened file contents fs t) (bytes : List UInt8) :
    Opened file (contents++bytes) (fs.write file bytes) t := by
  obtain ⟨⟨hg,rfl⟩,hdir,rfl⟩ := h
  obtain ⟨hg',hd⟩ := hg.write hdir bytes
  exact ⟨⟨hg',hd.symm⟩,hdir,by simp [Fs.write,Fs.setFile]⟩

theorem Opened.syncFile (h : Opened file contents fs t) :
    Opened file contents (fs.syncFile file) t ∧ ((fs.syncFile file).files file).synced = true := by
  obtain ⟨⟨hg,rfl⟩,hdir,rfl⟩ := h
  obtain ⟨hg',hd⟩ := hg.syncFile hdir
  exact ⟨⟨⟨hg',hd.symm⟩,hdir,by simp [Fs.syncFile,Fs.setFile]⟩,by simp [Fs.syncFile,Fs.setFile]⟩

theorem Opened.rename (h : Opened file contents fs t) (hs : (fs.files file).synced = true) :
    ∃ fs', fs.rename .tmpFile .stateFile = some fs' ∧ Shows fs' (t.replace contents) := by
  obtain ⟨⟨hg,rfl⟩,hdir,rfl⟩ := h
  obtain ⟨fs',hfs,hg',hd⟩ := hg.rename (by decide) hdir hs
  exact ⟨fs',hfs,hg',hd.symm⟩

theorem Shows.openTrunc (h : Shows fs t) :
    Opened (fs.openTrunc .tmpFile).1 [] (fs.openTrunc .tmpFile).2 t := by
  obtain ⟨hg,rfl⟩ := h
  obtain ⟨hg',hd,hdir,hcontent⟩ := hg.openTrunc (by decide)
  exact ⟨⟨hg',hd.symm⟩,hdir,hcontent⟩

theorem Shows.syncDir (h : Shows fs t) : Shows fs.syncDir t.flush := by
  obtain ⟨hg,rfl⟩ := h
  obtain ⟨hg',hd⟩ := hg.syncDir
  exact ⟨hg',hd.symm⟩

theorem Shows.unlink {fs' : StateDir} (h : Shows fs t) (hfs : fs.unlink .tmpFile = some fs') :
    Shows fs' t := by
  obtain ⟨hg,rfl⟩ := h
  obtain ⟨hg',hd⟩ := hg.unlink (by decide) hfs
  exact ⟨hg',hd.symm⟩

variable (env)

/-- Each call in turn: up to the rename nothing shows of what is written. -/
theorem writeAtomically_simulates (contents : List UInt8) :
    Simulates Shows (writeAtomically env contents) (replace env contents) (fun _ _ => Shows)
      Shows := by
  unfold writeAtomically replace
  refine Simulates.bind (Q := fun file _ => Opened file []) ?openat fun file _ => ?_
  case openat =>
    exact syscall_simulates fun fs t h =>
      ⟨h,_,_,_,_,rfl,rfl,h.openTrunc,h.openTrunc.1⟩
  refine Simulates.bind (Q := fun _ _ => Opened file []) ?fchmod fun _ _ => ?_
  case fchmod => exact syscall_simulates fun fs t h => ⟨h.1,_,_,_,_,rfl,rfl,h,h.1⟩
  refine Simulates.modify_left (R := Opened file (contents.take env.written))
    (fun fs t h => h.write _) ?_
  refine Simulates.bind (Q := fun _ _ => Opened file contents) ?write fun _ _ => ?_
  case write =>
    refine syscall_simulates fun fs t h => ?_
    have hall := h.write (contents.drop env.written)
    rw [List.take_append_drop] at hall
    exact ⟨h.1,_,_,_,_,rfl,rfl,hall,hall.1⟩
  refine Simulates.bind
    (Q := fun _ _ fs t => Opened file contents fs t ∧ (fs.files file).synced = true) ?sync
    fun _ _ => ?_
  case sync => exact syscall_simulates fun fs t h =>
    ⟨h.1,_,_,_,_,rfl,rfl,h.syncFile,h.syncFile.1.1⟩
  refine Simulates.bind (Q := fun _ _ => Shows) ?rename fun _ _ => ?_
  case rename =>
    refine syscall_simulates fun fs t ⟨h,hs⟩ => ?_
    obtain ⟨fs',hfs,h'⟩ := h.rename hs
    exact ⟨h.1,_,_,_,_,by rw [hfs]; rfl,rfl,h',h'⟩
  exact syscall_simulates fun fs t h => ⟨h,_,_,_,_,rfl,rfl,h.syncDir,h.syncDir⟩

/-- The error stays one, and the temporary file is there or is not. -/
theorem run_cleanUp_failed (unlink : σ → Option (Unit × σ)) (s : σ) :
    ∃ s', (cleanUp env unlink (.error .failed)).run s =
        (.error (if env.fault .unlinkat = some .killed then .killed else .failed),s') ∧
      (s' = s ∨ unlink s = some ((),s')) := by
  have hrun : (cleanUp env unlink (.error .failed)).run s =
      (match ((syscall env .unlinkat unlink).run s).1 with
        | .error .killed => fail .killed
        | _ => fail .failed : Prog σ Fault Unit).run ((syscall env .unlinkat unlink).run s).2 := rfl
  rw [hrun]
  rcases hf : env.fault .unlinkat with _ | _ | _ <;> rcases hu : unlink s with _ | ⟨_,s'⟩ <;>
    cases ht : env.took .unlinkat <;> simp [syscall,run,hf,hu,ht,fail]

theorem cleanUp_simulates (result : Except Fault Unit) :
    Simulates Shows
      (cleanUp env (fun fs : StateDir => (fs.unlink .tmpFile).map ((),·)) result)
      (cleanUp env unchanged result) (fun _ _ => Shows) Shows := by
  intro fs t h
  rcases result with (_ | _) | _
  · obtain ⟨fs',hfs,hunlink⟩ := run_cleanUp_failed env
      (fun fs : StateDir => (fs.unlink .tmpFile).map ((),·)) fs
    obtain ⟨t',ht,hsame⟩ := run_cleanUp_failed env unchanged t
    have ht' : t' = t := by
      rcases hsame with rfl | hsame
      · rfl
      · cases hsame
        rfl
    rw [hfs,ht,ht']
    refine ⟨rfl,?_⟩
    rcases hunlink with rfl | hunlink
    · exact h
    · obtain ⟨fs'',hu,heq⟩ := Option.map_eq_some_iff.mp hunlink
      cases heq
      exact h.unlink hu
  · exact ⟨rfl,h⟩
  · exact h

theorem save_simulates (f : FileFormat) (s : State) :
    Simulates Shows (save env f s) (replaceState env (f.encode s)) (fun _ _ => Shows) Shows := by
  intro fs t h
  have hw := (writeAtomically_simulates env (f.encode s)).result h
  have hrun : (save env f s).run fs = (cleanUp env (fun fs : StateDir =>
      (fs.unlink .tmpFile).map ((),·)) ((writeAtomically env (f.encode s)).run fs).1).run
      ((writeAtomically env (f.encode s)).run fs).2 := rfl
  have hrun' : (replaceState env (f.encode s)).run t = (cleanUp env unchanged
      ((replace env (f.encode s)).run t).1).run ((replace env (f.encode s)).run t).2 := rfl
  rw [hrun,hrun',hw.1]
  exact cleanUp_simulates env _ _ _ hw.2

/-- What may come of replacing a file with `t` known of it. -/
inductive Replaces (contents : List UInt8) (t : Durable UInt8) :
    Except Fault Unit × Durable UInt8 → Prop
  | kept (fault : Fault) : Replaces contents t (.error fault,t)
  | renamed (fault : Fault) : Replaces contents t (.error fault,t.replace contents)
  | synced (r : Except Fault Unit) : Replaces contents t (r,(t.replace contents).flush)

variable {env}

theorem replaces_unchanged_bind {call : Call} {y : Unit → Prog (Durable UInt8) Fault Unit}
    (h : Replaces contents t ((y ()).run t)) :
    Replaces contents t ((syscall env call unchanged >>= y).run t) := by
  rw [run_bind_eq]
  cases hf : env.fault call with
  | none => simpa [syscall,run,unchanged,hf] using h
  | some fault => simpa [syscall,run,unchanged,hf] using Replaces.kept fault

variable (env contents t)

theorem replaces_syncDir : Replaces contents t
    ((syscall env .syncDir fun t : Durable UInt8 => some ((),t.flush)).run
      (t.replace contents)) := by
  cases hs : env.fault .syncDir with
  | none => simpa [syscall,run,hs] using Replaces.synced _
  | some fault =>
    cases ht : env.took .syncDir with
    | true => simpa [syscall,run,hs,ht] using Replaces.synced _
    | false => simpa [syscall,run,hs,ht] using Replaces.renamed fault

theorem replaces_replace : Replaces contents t ((replace env contents).run t) := by
  unfold replace
  refine replaces_unchanged_bind <| replaces_unchanged_bind <| replaces_unchanged_bind <|
    replaces_unchanged_bind ?_
  rw [run_bind_eq]
  cases hr : env.fault .renameat with
  | none => simpa [syscall,run,hr] using replaces_syncDir env contents t
  | some fault =>
    cases ht : env.took .renameat with
    | true => simpa [syscall,run,hr,ht] using Replaces.renamed fault
    | false => simpa [syscall,run,hr,ht] using Replaces.kept fault

theorem replaces_replaceState : Replaces contents t ((replaceState env contents).run t) := by
  have h := replaces_replace env contents t
  have hrun : (replaceState env contents).run t = (cleanUp env unchanged
      ((replace env contents).run t).1).run ((replace env contents).run t).2 := rfl
  rw [hrun]
  rcases hr : (replace env contents).run t with ⟨(_ | _) | _,t'⟩ <;> rw [hr] at h
  · obtain ⟨t'',hclean,hsame⟩ := run_cleanUp_failed env unchanged t'
    have hsame : t'' = t' := by
      rcases hsame with rfl | hsame
      · rfl
      · cases hsame
        rfl
    rw [hclean,hsame]
    cases h with
    | kept => exact .kept _
    | renamed => exact .renamed _
    | synced => exact .synced _
  · exact h
  · exact h

variable {env contents t} {out : Except Fault Unit × Durable UInt8}

/-- What was there stays possible until the replacement is made to last. -/
theorem Replaces.after (h : Replaces contents t out) :
    (∀ bytes ∈ out.2.after, bytes ∈ t.after ∨ bytes = some contents) ∧
      (out.1.isOk = true → out.2.after = {some contents}) := by
  cases h with
  | kept => exact ⟨fun _ h => .inl h,fun h => nomatch h⟩
  | renamed => exact ⟨fun bytes h => (Set.mem_insert_iff.mp h).symm,fun h => nomatch h⟩
  | synced r => exact ⟨fun bytes h => .inr (Set.mem_singleton_iff.mp h),fun _ => rfl⟩

end

/-! ### Runs -/

/-- What there is of the state file after `given` was given to `save`: `last` is the last of them
with which it returned. -/
def Recent (f : FileFormat) (given : List State) (last : Option ℕ) : Option (List UInt8) → Prop
  | none => last = none
  | some bytes => ∃ k s, given[k]? = some s ∧ bytes = f.encode s ∧ ∀ n ∈ last, n ≤ k

/-- A run of saves, by one process after another, with power losses between and in them. -/
inductive Reached (f : FileFormat) : List State → Option ℕ → StateDir → Prop
  /-- There may be a temporary file. -/
  | start {fs : StateDir} (hpending : fs.pending = []) (hstate : fs.base .stateFile = none) :
      Reached f [] none fs
  | saved {given : List State} {last : Option ℕ} {fs : StateDir} (h : Reached f given last fs)
      (env : SaveEnv) (s : State) :
      Reached f (given++[s])
        (if ((save env f s).run fs).1.isOk then some given.length else last)
        ((save env f s).run fs).2
  | powerLoss {given : List State} {last : Option ℕ} {fs fs' : StateDir}
      (h : Reached f given last fs) (hc : fs.Crashes fs') : Reached f given last fs'

variable {f : FileFormat} {given : List State} {last : Option ℕ}

theorem Recent.mono {bytes : Option (List UInt8)} (h : Recent f given last bytes) (s : State) :
    Recent f (given++[s]) last bytes := by
  cases bytes with
  | none => exact h
  | some bytes =>
    obtain ⟨k,s',hk,hbytes,hlast⟩ := h
    have hlt : k < given.length := (List.getElem?_eq_some_iff.mp hk).1
    exact ⟨k,s',by rw [List.getElem?_append_left hlt,hk],hbytes,hlast⟩

/-- The state that was given last is older than none. -/
theorem recent_last (s : State) {last : Option ℕ} (hlast : ∀ n ∈ last, n ≤ given.length) :
    Recent f (given++[s]) last (some (f.encode s)) :=
  ⟨given.length,s,by simp,rfl,hlast⟩

/-- Whatever of the state file outlasts a power loss is recent. -/
structure Safe (f : FileFormat) (given : List State) (last : Option ℕ) (fs : StateDir) : Prop where
  guarded : fs.Guarded .stateFile .tmpFile
  recent : ∀ bytes ∈ (fs.durable .stateFile).after, Recent f given last bytes
  last_lt : ∀ n ∈ last, n < given.length

theorem safe_start {fs : StateDir} (hpending : fs.pending = [])
    (hstate : fs.base .stateFile = none) : Safe f [] none fs where
  guarded := by
    intro d hd i ht
    rw [Fs.landing_of_pending_nil hpending] at hd
    simp [hd,hstate] at ht
  recent := by
    rintro bytes ⟨d,hd,rfl⟩
    rw [Fs.landing_of_pending_nil hpending] at hd
    simp [Fs.readIn,hd,hstate,Recent]
  last_lt := by simp

theorem Safe.saved {fs : StateDir} (h : Safe f given last fs) (env : SaveEnv) (s : State) :
    Safe f (given++[s]) (if ((save env f s).run fs).1.isOk then some given.length else last)
      ((save env f s).run fs).2 := by
  have hsim := (save_simulates env f s).result ⟨h.guarded,rfl⟩
  have hreplaces := (replaces_replaceState env (f.encode s) (fs.durable .stateFile)).after
  rw [← hsim.1,congrArg Durable.after hsim.2.2] at hreplaces
  cases hok : ((save env f s).run fs).1.isOk with
  | true =>
    refine ⟨hsim.2.1,?_,by simp⟩
    intro bytes hbytes
    rw [hreplaces.2 hok,Set.mem_singleton_iff] at hbytes
    rw [hbytes]
    exact recent_last s (by simp)
  | false =>
    refine ⟨hsim.2.1,?_,fun n hn => by
      have := h.last_lt n hn
      simp
      omega⟩
    intro bytes hbytes
    rcases hreplaces.1 bytes hbytes with hold | rfl
    · exact (h.recent bytes hold).mono s
    · exact recent_last s fun n hn => (h.last_lt n hn).le

theorem Reached.safe {fs : StateDir} (h : Reached f given last fs) : Safe f given last fs := by
  induction h with
  | start hpending hstate => exact safe_start hpending hstate
  | saved h env s ih => exact ih.saved env s
  | powerLoss h hc ih =>
    obtain ⟨hg,bytes,hbytes,hd⟩ := ih.guarded.crashes hc
    refine ⟨hg,?_,ih.last_lt⟩
    rw [hd]
    intro r hr
    rw [Set.mem_singleton_iff.mp hr]
    exact ih.recent bytes hbytes

/-- `Execute` knows of a save when it fails: before the rename or after it. -/
theorem save_refines {D : Type} (e : StepEnv D) {w : World D} {fs : StateDir}
    (hg : fs.Guarded .stateFile .tmpFile) (hw : fs.read .stateFile = some (f.encode w.disk))
    (env : SaveEnv) :
    ∃ fault, ((Byssus.save {e with fault}).run w).1.isOk =
        ((save env f w.state).run fs).1.isOk ∧
      ((save env f w.state).run fs).2.read .stateFile =
        some (f.encode ((Byssus.save {e with fault}).run w).2.disk) := by
  have hsim := (save_simulates env f w.state).result ⟨hg,rfl⟩
  have hreplaces := replaces_replaceState env (f.encode w.state) (fs.durable .stateFile)
  have hnow : ((save env f w.state).run fs).2.read .stateFile =
      ((replaceState env (f.encode w.state)).run (fs.durable .stateFile)).2.now := by
    rw [hsim.2.2]
    rfl
  rw [hnow,hsim.1]
  generalize (replaceState env (f.encode w.state)).run (fs.durable .stateFile) = out at hreplaces
  cases hreplaces with
  | kept => exact ⟨fun op => if op = .saveFile then some "" else none,rfl,hw⟩
  | renamed => exact ⟨fun op => if op = .syncDir then some "" else none,rfl,rfl⟩
  | synced r =>
    rcases r with _ | _
    · exact ⟨fun op => if op = .syncDir then some "" else none,rfl,rfl⟩
    · exact ⟨fun _ => none,rfl,rfl⟩

/-- Whatever fails, ends or loses power where: the state file is a whole one, not older than the
last with which `save` returned, and is absent only if it never did.  Two directories that differ
in the temporary file alone do not differ after another save either, now or after a power loss. -/
theorem state_file_crash_safe {fs : StateDir} (h : Reached f given last fs) :
    Recent f given last (fs.read .stateFile) ∧
      ∀ {given' last' fs'}, Reached f given' last' fs' →
        fs'.durable .stateFile = fs.durable .stateFile → ∀ env s,
          ((save env f s).run fs').1 = ((save env f s).run fs).1 ∧
            ((save env f s).run fs').2.durable .stateFile =
              ((save env f s).run fs).2.durable .stateFile := by
  constructor
  · exact h.safe.recent _ (fs.now_mem .stateFile)
  · intro given' last' fs' h' hsame env s
    have hsim := (save_simulates env f s).result ⟨h.safe.guarded,rfl⟩
    have hsim' := (save_simulates env f s).result ⟨h'.safe.guarded,rfl⟩
    rw [hsame] at hsim'
    exact ⟨hsim'.1.trans hsim.1.symm,hsim'.2.2.symm.trans hsim.2.2⟩

/-! ### A save cut short -/
namespace CutShort
open SampleStateFile (format state)

def empty : StateDir where
  base := fun _ => none
  pending := []
  files := fun _ => ⟨[],true⟩
  fresh := 0
  base_lt := by simp
  pending_lt := by simp

def fine : SaveEnv := ⟨fun _ => none,fun _ => false,0⟩

def killed : SaveEnv := {fine with fault := fun c => if c = .write then some .killed else none}

def first (f : FileFormat) (s : State) : StateDir := ((save fine f s).run empty).2
def second (f : FileFormat) (s : State) : StateDir := ((save killed f s).run (first f s)).2

/-- Power is lost after all changes of entries have landed; what was written holds `bytes`. -/
def leaving (bytes : List UInt8) (fs : StateDir) : StateDir where
  base := fs.dir
  pending := []
  files := fun i => if (fs.files i).synced then fs.files i else ⟨bytes,true⟩
  fresh := fs.fresh
  base_lt := fun _ _ h => fs.dir_landing.lt h
  pending_lt := by simp

theorem crashes_leaving (bytes : List UInt8) (fs : StateDir) : fs.Crashes (leaving bytes fs) := by
  refine ⟨fs.dir_landing,rfl,rfl,fun i => ?_⟩
  cases hs : (fs.files i).synced <;> simp [leaving,hs]

theorem reached (f : FileFormat) (s : State) (bytes : List UInt8) :
    Reached f [s,s] (some 0) (leaving bytes (second f s)) := by
  have hempty : Reached f [] none empty := .start rfl rfl
  have hfirst : Reached f [s] (some 0) (first f s) := hempty.saved fine s
  have hsecond : Reached f [s,s] (some 0) (second f s) := hfirst.saved killed s
  exact hsecond.powerLoss (crashes_leaving bytes _)

theorem durable_leaving (f : FileFormat) (s : State) (bytes : List UInt8) :
    (leaving bytes (second f s)).durable .stateFile = ⟨some (f.encode s),{some (f.encode s)}⟩ :=
  Fs.durable_of_pending_nil rfl _

/-- What is left of the temporary file does not matter to the next save. -/
theorem state_file_crash_safe_run :
    Recent format [state,state] (some 0) ((leaving [1,2,3] (second format state)).read .stateFile) ∧
      (leaving [1,2,3] (second format state)).read .tmpFile = some [1,2,3] ∧
      (leaving [7] (second format state)).read .tmpFile = some [7] ∧
      ((save fine format state).run (leaving [7] (second format state))).2.durable .stateFile =
        ((save fine format state).run
          (leaving [1,2,3] (second format state))).2.durable .stateFile := by
  have h := state_file_crash_safe (reached format state [1,2,3])
  refine ⟨h.1,rfl,rfl,?_⟩
  have hsame := (durable_leaving format state [7]).trans (durable_leaving format state [1,2,3]).symm
  exact (h.2 (reached format state [7]) hsame fine state).2

end CutShort
end StateStore
end Byssus
