import Byssus.FailureFree

/-! A mount step that fails at a single system call.
It leaves the mount table, the records in memory and those on disk as they were, except at two
calls that come after the point of no return: reading the identity of the attached mount, and
syncing the directory of the replaced state file. -/
namespace Byssus

open Program Prog

section
variable {D : Type} {env : StepEnv D}

theorem run_syscall_quiet (hq : ∀ op t, env.before op t = t) (op : Op) (w : World D) :
    (syscall env op).run w = match env.fault op with
      | some e => (.error e,w)
      | none => (.ok (),w) := by
  cases hf : env.fault op <;> simp [syscall,run,hq,hf]

theorem run_insertRecord (r : MountRecord) (w : World D) : (insertRecord r).run w =
    (.ok (w.state.get r.key),{w with state := (w.state.insert r).1}) := rfl

variable [DecidableEq D] {unique : Bool} {d : DesiredMount} {w v : World D} {op : Op}

/-- The calls of a mount step before the mount is attached. -/
def beforeAttach : List Op :=
  [.sourceRoot,.resolveSource,.targetRoot,.ensureDirs,.isMountRoot,.openTree,.setAttr,.moveMount]

/-- Nothing is done at an occupied target. -/
theorem tryMount_occupied (hq : ∀ op t, env.before op t = t) {e : String}
    (hocc : w.table (env.dir .ensureDirs) ≠ []) (h : (tryMount env unique d).run w = (.error e,v)) :
    v = w := by
  have hno : ∀ t, ¬Attaches env Eq d w t := by
    rintro t ⟨t₀,t₁,rfl,hempty,-⟩
    exact hocc hempty
  cases tryMount_run (drifts_eq hq) h with
  | notAttached e t ht =>
    subst ht
    rfl
  | unread e e' t ht hf => exact absurd ht (hno t)
  | stuck e e' t ht disk hd hf => exact absurd ht (hno t)
  | rolledBack e t ht disk hd r v hu => exact absurd ht (hno t)

/-- A call that fails before the mount is attached. -/
theorem tryMount_early (unique : Bool) (d : DesiredMount)
    (hq : ∀ op t, env.before op t = t) {e : String} (hop : op ∈ beforeAttach)
    (hf : env.fault op = some e) (hn : ∀ o, o ≠ op → env.fault o = none)
    (hempty : w.table (env.dir .ensureDirs) = []) :
    ∃ e', (tryMount env unique d).run w = (.error e',w) := by
  simp only [beforeAttach,List.mem_cons,List.not_mem_nil,or_false] at hop
  rcases hop with rfl | rfl | rfl | rfl | rfl | rfl | rfl | rfl <;>
    simp [tryMount,ensureDirsBeneath,isMountRoot,createBind,Table.openDir,run_bind_eq,
      run_mapError_eq,run_syscall_quiet hq,hf,hn,hempty,Except.mapError]

/-- The identity of the attached mount cannot be read. -/
theorem tryMount_unread (hq : ∀ op t, env.before op t = t) {e : String}
    (hf : env.fault .readIdentity = some e) (hn : ∀ o, o ≠ .readIdentity → env.fault o = none)
    (hempty : w.table (env.dir .ensureDirs) = []) :
    (tryMount env unique d).run w = (.error e,{w with
      table := w.table.attach (env.dir .ensureDirs) (env.newMount d)
      trace := w.trace ++ [.attached (env.dir .ensureDirs) (env.newMount d) d]}) := by
  simp [tryMount,ensureDirsBeneath,isMountRoot,createBind,Table.openDir,run_bind_eq,
    run_mapError_eq,run_syscall_quiet hq,hf,hn,hempty,Except.mapError]

/-- The rolled back table is the one before. -/
theorem detach_attach (t : Table D) (dir : D) (m : Mount) : (t.attach dir m).detach dir = t := by
  funext x
  by_cases h : x = dir
  · subst h
    simp
  · rw [Table.detach_of_ne h,Table.attach_of_ne h]

/-- The state file cannot be replaced, or its directory not synced after that. -/
theorem tryMount_unsaved (unique : Bool) (d : DesiredMount) (hq : ∀ op t, env.before op t = t)
    (hdir : env.dir .rollback = env.dir .ensureDirs) {e : String}
    (hop : op = .saveFile ∨ op = .syncDir) (hf : env.fault op = some e)
    (hn : ∀ o, o ≠ op → env.fault o = none) (hempty : w.table (env.dir .ensureDirs) = []) :
    ∃ e' trace, (tryMount env unique d).run w = (.error e',{w with
      disk := if op = .syncDir then (w.state.insert (env.record unique d)).1 else w.disk
      trace}) := by
  have hrestore : ∀ (table : Table D) disk trace, restore d.key (w.state.get d.key)
      ⟨table,(w.state.insert (newRecord d ((env.newMount d).readIdentity unique) env.now)).1,
        disk,trace⟩ = ⟨table,w.state,disk,trace⟩ := fun table disk trace =>
    restore_insert ⟨table,w.state,disk,trace⟩ (env.record unique d) d.key rfl
  rcases hop with rfl | rfl <;>
    simp [tryMount,ensureDirsBeneath,isMountRoot,createBind,persist,save,unmountVerified,
      run_insertRecord,Table.openDir,Fd.verified,run_bind_eq,run_mapError_eq,
      run_syscall_quiet hq,hf,hn,hdir,hempty,Except.mapError,hrestore,detach_attach,
      StepEnv.record]

/-- Without a failing call among those that a mount step makes, it succeeds. -/
theorem tryMount_succeeds (unique : Bool) (d : DesiredMount) (hq : ∀ op t, env.before op t = t)
    (hn : ∀ o ∈ beforeAttach ++ [.readIdentity,.saveFile,.syncDir], env.fault o = none)
    (hempty : w.table (env.dir .ensureDirs) = []) : ∃ u, (tryMount env unique d).run w = (.ok (),u) := by
  simp only [beforeAttach,List.mem_append,List.mem_cons,List.not_mem_nil,or_false,forall_eq,
    or_imp,forall_and] at hn
  simp [tryMount,ensureDirsBeneath,isMountRoot,createBind,persist,save,run_insertRecord,
    Table.openDir,run_bind_eq,run_mapError_eq,run_syscall_quiet hq,hn,hempty,Except.mapError]

/-- A mount step that fails at the one call `op` leaves the mount table and both copies of the
records as they were exactly if the target was occupied, or the call is neither the reading of
the new mount's identity nor the sync of the directory of a file that had to change. -/
theorem failed_mount_restores_iff (hq : ∀ o t, env.before o t = t)
    (hone : ∀ o e, env.fault o = some e → o = op) (hdir : env.dir .rollback = env.dir .ensureDirs)
    {r : Except String Unit} {error : String}
    (h : (runAction env unique (.mount d)).run w = (r,v)) (hfail : intoResult r = .failed error) :
    (v.table = w.table ∧ v.state = w.state ∧ v.disk = w.disk) ↔
      w.table (env.dir .ensureDirs) ≠ [] ∨ (op ≠ .readIdentity ∧
        (op = .syncDir → w.disk = (w.state.insert (env.record unique d)).1)) := by
  have hr : ∃ e, r = .error e := by
    cases r with
    | ok _ => cases hfail
    | error e => exact ⟨e,rfl⟩
  obtain ⟨e,rfl⟩ := hr
  have h : (tryMount env unique d).run w = (.error e,v) := h
  by_cases hocc : w.table (env.dir .ensureDirs) ≠ []
  · rw [tryMount_occupied hq hocc h]
    simp [hocc]
  have hempty : w.table (env.dir .ensureDirs) = [] := not_not.mp hocc
  have hn : ∀ o, o ≠ op → env.fault o = none := by
    intro o ho
    by_contra hf
    obtain ⟨e',hf⟩ := Option.ne_none_iff_exists'.mp hf
    exact ho (hone o e' hf)
  -- the step failed, so the call that may fail is one of those it makes
  have hf : (env.fault op).isSome ∧ op ∈ beforeAttach ++ [.readIdentity,.saveFile,.syncDir] := by
    by_contra hno
    have hnone : ∀ o ∈ beforeAttach ++ [.readIdentity,.saveFile,.syncDir], env.fault o = none := by
      intro o ho
      by_cases hop : o = op
      · subst hop
        by_contra hs
        exact hno ⟨Option.isSome_iff_ne_none.mpr hs,ho⟩
      · exact hn o hop
    obtain ⟨u,hu⟩ := tryMount_succeeds unique d hq hnone hempty
    rw [hu] at h
    cases h
  obtain ⟨hsome,hmem⟩ := hf
  obtain ⟨e',hf⟩ := Option.isSome_iff_exists.mp hsome
  simp only [hempty,ne_eq,not_true_eq_false,false_or]
  rcases List.mem_append.mp hmem with hearly | hlate
  · obtain ⟨e'',hrun⟩ := tryMount_early unique d hq hearly hf hn hempty
    rw [hrun] at h
    cases h
    have hread : op ≠ .readIdentity := by
      rintro rfl
      exact absurd hearly (by decide)
    have hsync : op ≠ .syncDir := by
      rintro rfl
      exact absurd hearly (by decide)
    simp [hread,hsync]
  · by_cases hread : op = .readIdentity
    · subst hread
      rw [tryMount_unread hq hf hn hempty] at h
      cases h
      -- the new mount stays at the target
      simp only [not_true_eq_false,false_and,iff_false,not_and]
      intro ht
      have hat := congrFun ht (env.dir .ensureDirs)
      simp [hempty] at hat
    · have hsave : op = .saveFile ∨ op = .syncDir := by simpa [hread] using hlate
      obtain ⟨e'',trace,hrun⟩ := tryMount_unsaved unique d hq hdir hsave hf hn hempty
      rw [hrun] at h
      cases h
      by_cases hsync : op = .syncDir
      · simp [hsync,eq_comm]
      · simp [hread,hsync]

end

/-! The two calls at which a mount step fails too late. -/
namespace LateFailure

open Sample

/-- Nobody else acts; the call `op` fails. -/
def env (op : Op) : StepEnv ℕ where
  before := fun _ t => t
  fault := fun o => if o = op then some "Input/output error (os error 5)" else none
  dir := fun _ => 0
  source := dir 43
  mntId := 8
  mntIdUnique := some 8
  inherited := ⟨false,false,false,false,false⟩
  now := 0

def member : DesiredMount := desired group a "x"

/-- Nothing is mounted or recorded. -/
def start : World ℕ := ⟨fun _ => [],.empty,.empty,[]⟩

/-- What is claimed of a step that fails at the one call `op`. -/
def Restores (op : Op) : Prop :=
  ∀ (env : StepEnv ℕ) (unique : Bool) (d : DesiredMount) (w v : World ℕ) (r : Except String Unit)
    (error : String), (∀ o t, env.before o t = t) → (∀ o e, env.fault o = some e → o = op) →
    env.dir .rollback = env.dir .ensureDirs →
    (runAction env unique (.mount d)).run w = (r,v) → intoResult r = .failed error →
    v.table = w.table ∧ v.state = w.state ∧ v.disk = w.disk

theorem fault_eq (op o : Op) (e : String) (h : (env op).fault o = some e) : o = op := by
  by_contra hne
  simp [env,hne] at h

/-- After the first call the mount stays, after the second the record of one that is gone. -/
theorem failed_mount_leaves_something : ¬Restores .readIdentity ∧ ¬Restores .syncDir := by
  constructor
  · intro h
    have hleft := (h (env .readIdentity) true member start _ _ _ (fun _ _ => rfl)
      (fault_eq .readIdentity) rfl rfl
      (by decide +kernel : _ = StepResult.failed "Input/output error (os error 5)")).1
    have hat := congrFun hleft 0
    have hmount : ((runAction (env .readIdentity) true (.mount member)).run start).2.table 0 ≠ [] := by
      decide +kernel
    exact hmount hat
  · intro h
    have hleft := (h (env .syncDir) true member start _ _ _ (fun _ _ => rfl)
      (fault_eq .syncDir) rfl rfl (by decide +kernel : _ = StepResult.failed
        "cannot write state file: Input/output error (os error 5); mount rolled back")).2.2
    have hrecord : ((runAction (env .syncDir) true (.mount member)).run start).2.disk.get member.key
        ≠ start.disk.get member.key := by
      decide +kernel
    exact hrecord (congrArg (fun s : State => s.get member.key) hleft)

theorem failed_mount_restores_iff_run :
    (((tryMount (env .saveFile) true member).run start).2.table = start.table ∧
      ((tryMount (env .saveFile) true member).run start).2.state = start.state ∧
      ((tryMount (env .saveFile) true member).run start).2.disk = start.disk) ↔
      start.table 0 ≠ [] ∨ (Op.saveFile ≠ .readIdentity ∧ (Op.saveFile = .syncDir →
        start.disk = (start.state.insert ((env .saveFile).record true member)).1)) :=
  failed_mount_restores_iff (fun _ _ => rfl) (fault_eq .saveFile) rfl rfl
    (by decide +kernel : _ = StepResult.failed
      "cannot write state file: Input/output error (os error 5); mount rolled back")

end LateFailure
end Byssus
