import Byssus.Execute

/-! What a step of an execution can do.
Each operation lets the mount table drift; a relation `J` on tables says how far.
A step then has one of the outcomes listed here, and everything proved about
executions is proved from these lists. -/
namespace Byssus

open Program Prog

variable {D : Type} {env : StepEnv D} {J : Table D → Table D → Prop}

/-- `J` covers every change that other processes make during the step. -/
structure Drifts (J : Table D → Table D → Prop) (env : StepEnv D) : Prop where
  refl : ∀ t, J t t
  trans : ∀ {t u v}, J t u → J u v → J t v
  before : ∀ op t, J t (env.before op t)

theorem syscall_run (hJ : Drifts J env) {op : Op} {w v : World D} {r : Except String Unit}
    (h : (syscall env op).run w = (r,v)) :
    ∃ t, J w.table t ∧ v = {w with table := t} ∧
      (r = .ok () ∧ env.fault op = none ∨ ∃ e, r = .error e ∧ env.fault op = some e) := by
  refine ⟨env.before op w.table,hJ.before op w.table,?_⟩
  unfold syscall at h
  cases hf : env.fault op with
  | none =>
    simp only [run,hf,Prod.mk.injEq] at h
    exact ⟨h.2.symm,.inl ⟨h.1.symm,rfl⟩⟩
  | some e =>
    simp only [run,hf,Prod.mk.injEq] at h
    exact ⟨h.2.symm,.inr ⟨e,h.1.symm,rfl⟩⟩

/-- A program that starts with an operation fails there or goes on. -/
theorem syscall_bind {ε α : Type} (hJ : Drifts J env) {op : Op} {g : String → ε}
    {f : Unit → Prog (World D) ε α} {w v : World D} {r : Except ε α}
    (h : ((syscall env op).mapError g >>= f).run w = (r,v)) :
    (∃ e t, J w.table t ∧ env.fault op = some e ∧ r = .error (g e) ∧ v = {w with table := t}) ∨
      ∃ t, J w.table t ∧ env.fault op = none ∧ (f ()).run {w with table := t} = (r,v) := by
  rcases run_bind h with ⟨e,hx,rfl⟩ | ⟨a,u,hx,hf⟩
  · obtain ⟨r',hs,hr⟩ := run_mapError hx
    obtain ⟨t,ht,hv,hcase⟩ := syscall_run hJ hs
    rcases hcase with ⟨rfl,-⟩ | ⟨e',rfl,hfault⟩
    · cases hr
    · cases hr
      exact .inl ⟨e',t,ht,hfault,rfl,hv⟩
  · obtain ⟨t,ht,hv,hcase⟩ := syscall_run hJ (run_mapError_ok hx)
    rcases hcase with ⟨-,hfault⟩ | ⟨e',he,-⟩
    · exact .inr ⟨t,ht,hfault,by rw [← hv]; exact hf⟩
    · cases he

theorem mapError_id {ε α σ : Type} (x : Prog σ ε α) : x.mapError id = x := by
  funext s
  cases h : x.run s with
  | mk r t => cases r <;> simp_all [mapError,run,Except.mapError]

/-- `syscall_bind` where the error is passed on as it is. -/
theorem syscall_bind' {α : Type} (hJ : Drifts J env) {op : Op} {f : Unit → Exec D α}
    {w v : World D} {r : Except String α} (h : (syscall env op >>= f).run w = (r,v)) :
    (∃ e t, J w.table t ∧ env.fault op = some e ∧ r = .error e ∧ v = {w with table := t}) ∨
      ∃ t, J w.table t ∧ env.fault op = none ∧ (f ()).run {w with table := t} = (r,v) := by
  rw [← mapError_id (syscall env op)] at h
  exact syscall_bind hJ h

/-- The outcomes of `persist`: the file holds what memory holds, or it is as before, or it
was replaced although an error is returned. -/
inductive Persisted (env : StepEnv D) (w : World D) : Except String Unit → State → Prop
  | saved : Persisted env w (.ok ()) w.state
  | unchanged (e : String) : Persisted env w (.error e) w.disk
  | unsynced (e e' : String) (h : env.fault .syncDir = some e') : Persisted env w (.error e) w.state

theorem persist_run (hJ : Drifts J env) {w v : World D} {r : Except String Unit}
    (h : (persist env).run w = (r,v)) :
    ∃ t disk, J w.table t ∧ v = {w with table := t,disk} ∧ Persisted env w r disk := by
  unfold persist save at h
  obtain ⟨r',hx,rfl⟩ := run_mapError h
  rcases syscall_bind' hJ hx with ⟨e,t,ht,-,rfl,rfl⟩ | ⟨t,ht,-,hx⟩
  · exact ⟨t,w.disk,ht,rfl,.unchanged _⟩
  · rw [run_bind_modify] at hx
    obtain ⟨t',ht',rfl,hcase⟩ := syscall_run hJ hx
    refine ⟨t',w.state,hJ.trans ht ht',rfl,?_⟩
    rcases hcase with ⟨rfl,-⟩ | ⟨e,rfl,hf⟩
    · exact .saved
    · exact .unsynced _ e hf

theorem ensureDirsBeneath_run (hJ : Drifts J env) {w v : World D} {r : Except String (Fd D)}
    (h : (ensureDirsBeneath env).run w = (r,v)) :
    ∃ t, J w.table t ∧ v = {w with table := t} ∧
      ((∃ e, r = .error e) ∨ r = .ok (t.openDir (env.dir .ensureDirs))) := by
  unfold ensureDirsBeneath at h
  rcases syscall_bind' hJ h with ⟨e,t,ht,-,rfl,rfl⟩ | ⟨t,ht,-,h⟩
  · exact ⟨t,ht,rfl,.inl ⟨e,rfl⟩⟩
  · simp only [run_gets,Prod.mk.injEq] at h
    obtain ⟨rfl,rfl⟩ := h
    exact ⟨t,ht,rfl,.inr rfl⟩

theorem isMountRoot_run (hJ : Drifts J env) {fd : Fd D} {w v : World D} {r : Except String Bool}
    (h : (isMountRoot env fd).run w = (r,v)) :
    ∃ t, J w.table t ∧ v = {w with table := t} ∧ ((∃ e, r = .error e) ∨ r = .ok fd.mount.isSome) := by
  unfold isMountRoot at h
  rcases syscall_bind' hJ h with ⟨e,t,ht,-,rfl,rfl⟩ | ⟨t,ht,-,h⟩
  · exact ⟨t,ht,rfl,.inl ⟨e,rfl⟩⟩
  · simp only [run_pure,Prod.mk.injEq] at h
    obtain ⟨rfl,rfl⟩ := h
    exact ⟨t,ht,rfl,.inr rfl⟩


/-- The record that a mount step would leave. -/
def StepEnv.record (env : StepEnv D) (unique : Bool) (d : DesiredMount) : MountRecord :=
  newRecord d ((env.newMount d).readIdentity unique) env.now

@[simp] theorem record_key (env : StepEnv D) (unique : Bool) (d : DesiredMount) :
    (env.record unique d).key = d.key := rfl

@[simp] theorem record_identity (env : StepEnv D) (unique : Bool) (d : DesiredMount) :
    (env.record unique d).identity = (env.newMount d).readIdentity unique := rfl

/-- Restoring memory undoes the insertion of a record. -/
theorem restore_insert (w : World D) (r : MountRecord) (k : RecordKey) (hk : r.key = k) :
    restore k (w.state.get k) {w with state := (w.state.insert r).1} = w := by
  subst hk
  cases hp : w.state.get r.key with
  | none =>
    have hs : (w.state.insert r).1.remove r.key = w.state := by
      apply State.ext
      intro k'
      by_cases h : r.key = k'
      · subst h
        simp [hp]
      · simp [h]
    simp [restore,hs]
  | some prev =>
    have hprev : prev.key = r.key := State.key_of_get hp
    have hs : ((w.state.insert r).1.insert prev).1 = w.state := by
      apply State.ext
      intro k'
      by_cases h : r.key = k'
      · subst h
        simp [hp,hprev]
      · simp [h,hprev]
    simp [restore,hs]

section
variable [DecidableEq D]

/-- The outcomes of `unmount_verified`. -/
inductive Unmounted (env : StepEnv D) (J : Table D → Table D → Prop) (op : Op) (target : Location)
    (expected : MountIdentity) (unique : Bool) (w : World D) :
    Except VerifiedOpError Unit → World D → Prop
  | failed (e : String) (t : Table D) (ht : J w.table t) (hf : env.fault op = some e) :
    Unmounted env J op target expected unique w (.error (.io e)) {w with table := t}
  | refused (e : VerifiedOpError) (t : Table D) (ht : J w.table t)
    (hv : (t.openDir (env.dir op)).verified expected unique = .error e) :
    Unmounted env J op target expected unique w (.error e) {w with table := t}
  | detached (m : Mount) (t : Table D) (ht : J w.table t)
    (hm : (t (env.dir op)).head? = some m)
    (hv : (m.readIdentity unique).matches expected = true) :
    Unmounted env J op target expected unique w (.ok ()) {w with
      table := t.detach (env.dir op)
      trace := w.trace ++ [.umount target (env.dir op) m (t (env.dir op))]}

theorem unmountVerified_run (hJ : Drifts J env) {op : Op} {target : Location}
    {expected : MountIdentity} {unique : Bool} {w v : World D} {r : Except VerifiedOpError Unit}
    (h : (unmountVerified env op target expected unique).run w = (r,v)) :
    Unmounted env J op target expected unique w r v := by
  unfold unmountVerified at h
  rcases syscall_bind hJ h with ⟨e,t,ht,hf,rfl,rfl⟩ | ⟨t,ht,-,h⟩
  · exact .failed e t ht hf
  · rw [run_bind_gets] at h
    rcases run_bind h with ⟨e,hm,rfl⟩ | ⟨m,u,hm,h⟩
    · simp only [run_ofExcept,Prod.mk.injEq] at hm
      obtain ⟨hv,rfl⟩ := hm
      exact .refused e t ht hv
    · simp only [run_ofExcept,Prod.mk.injEq] at hm
      obtain ⟨hv,rfl⟩ := hm
      obtain ⟨hh,hi⟩ := Fd.verified_ok hv
      simp only [run_modify,Prod.mk.injEq] at h
      obtain ⟨rfl,rfl⟩ := h
      exact .detached m t ht hh hi

/-- The table after a mount step has attached its mount: the directory was found
empty, other processes went on, and the new mount covers what is there now. -/
def Attaches (env : StepEnv D) (J : Table D → Table D → Prop) (d : DesiredMount)
    (w : World D) (t : Table D) : Prop :=
  ∃ t₀ t₁, J w.table t₀ ∧ t₀ (env.dir .ensureDirs) = [] ∧ J t₀ t₁ ∧
    J (t₁.attach (env.dir .ensureDirs) (env.newMount d)) t

/-- The history of a mount step that attached its mount and read its identity. -/
def madeEvents (env : StepEnv D) (unique : Bool) (d : DesiredMount) : List (Event D) :=
  [.attached (env.dir .ensureDirs) (env.newMount d) d,
    .readBack (env.newMount d) ((env.newMount d).readIdentity unique)]

/-- The outcomes of `try_mount`. -/
inductive Mounting (env : StepEnv D) (J : Table D → Table D → Prop) (unique : Bool)
    (d : DesiredMount) (w : World D) : Except String Unit → World D → Prop
  /-- Nothing was attached. -/
  | notAttached (e : String) (t : Table D) (ht : J w.table t) :
    Mounting env J unique d w (.error e) {w with table := t}
  /-- The mount was attached, but its identity could not be read. -/
  | unread (e e' : String) (t : Table D) (ht : Attaches env J d w t)
    (hf : env.fault .readIdentity = some e') :
    Mounting env J unique d w (.error e) {w with
      table := t
      trace := w.trace ++ [.attached (env.dir .ensureDirs) (env.newMount d) d]}
  /-- The mount was attached and recorded. -/
  | recorded (t : Table D) (ht : Attaches env J d w t) :
    Mounting env J unique d w (.ok ()) {
      table := t
      state := (w.state.insert (env.record unique d)).1
      disk := (w.state.insert (env.record unique d)).1
      trace := w.trace ++ madeEvents env unique d}
  /-- The record could not be saved and the root was gone when rolling back. -/
  | stuck (e e' : String) (t : Table D) (ht : Attaches env J d w t) (disk : State)
    (hd : disk = w.disk ∨ ∃ e, env.fault .syncDir = some e)
    (hf : env.fault .rollbackRoot = some e') :
    Mounting env J unique d w (.error e) {w with
      table := t
      disk
      trace := w.trace ++ madeEvents env unique d}
  /-- The record could not be saved and the mount was rolled back, or that was refused. -/
  | rolledBack (e : String) (t : Table D) (ht : Attaches env J d w t) (disk : State)
    (hd : disk = w.disk ∨ ∃ e, env.fault .syncDir = some e) (r : Except VerifiedOpError Unit)
    (v : World D)
    (hu : Unmounted env J .rollback d.target ((env.newMount d).readIdentity unique) unique {w with
      table := t
      disk
      trace := w.trace ++ madeEvents env unique d} r v) :
    Mounting env J unique d w (.error e) v

theorem createBind_run (hJ : Drifts J env) {target : Fd D} {d : DesiredMount} {unique : Bool}
    {w v : World D} {r : Except String MountIdentity}
    (h : (createBind env target d unique).run w = (r,v)) :
    (∃ e t, J w.table t ∧ r = .error e ∧ v = {w with table := t}) ∨
      ∃ t u, J w.table t ∧ J (t.attach target.dir (env.newMount d)) u ∧
        ((∃ e, env.fault .readIdentity = some e ∧ r = .error e ∧ v = {w with
            table := u
            trace := w.trace ++ [.attached target.dir (env.newMount d) d]}) ∨
          (r = .ok ((env.newMount d).readIdentity unique) ∧ v = {w with
            table := u
            trace := w.trace ++ [.attached target.dir (env.newMount d) d,
              .readBack (env.newMount d) ((env.newMount d).readIdentity unique)]})) := by
  unfold createBind at h
  rcases syscall_bind' hJ h with ⟨e,t,ht,-,rfl,rfl⟩ | ⟨t₁,h₁,-,h⟩
  · exact .inl ⟨e,t,ht,rfl,rfl⟩
  rcases syscall_bind' hJ h with ⟨e,t,ht,-,rfl,rfl⟩ | ⟨t₂,h₂,-,h⟩
  · exact .inl ⟨e,t,hJ.trans h₁ ht,rfl,rfl⟩
  rcases syscall_bind' hJ h with ⟨e,t,ht,-,rfl,rfl⟩ | ⟨t₃,h₃,-,h⟩
  · exact .inl ⟨e,t,hJ.trans h₁ (hJ.trans h₂ ht),rfl,rfl⟩
  have hw : J w.table t₃ := hJ.trans h₁ (hJ.trans h₂ h₃)
  rw [run_bind_modify] at h
  rcases syscall_bind' hJ h with ⟨e,t,ht,hf,rfl,rfl⟩ | ⟨t₄,h₄,-,h⟩
  · exact .inr ⟨t₃,t,hw,ht,.inl ⟨e,hf,rfl,rfl⟩⟩
  rw [run_bind_modify] at h
  simp only [run_pure,Prod.mk.injEq] at h
  obtain ⟨rfl,rfl⟩ := h
  exact .inr ⟨t₃,t₄,hw,h₄,.inr ⟨rfl,by simp⟩⟩

@[simp] theorem newRecord_key (d : DesiredMount) (identity : MountIdentity) (now : Timestamp) :
    (newRecord d identity now).key = d.key := rfl

omit [DecidableEq D] in
theorem insertRecord_bind {α : Type} (record : MountRecord) (f : Option MountRecord → Exec D α)
    (w : World D) : (insertRecord record >>= f).run w =
      (f (w.state.get record.key)).run {w with state := (w.state.insert record).1} := rfl

/-- After a failed save: memory is restored and the mount is rolled back. -/
theorem rollback_run (hJ : Drifts J env) {unique : Bool} {d : DesiredMount} {w v : World D}
    {saveError : String} {r : Except String Unit} {t : Table D} {disk : State}
    (ht : Attaches env J d w t) (hd : disk = w.disk ∨ ∃ e, env.fault .syncDir = some e)
    (h : (do
      modify (restore d.key (w.state.get d.key))
      syscall env .rollbackRoot
      let rollback ← (unmountVerified env .rollback d.target
        ((env.newMount d).readIdentity unique) unique).attempt
      match rollback with
      | .ok () => fail (saveError ++ "; mount rolled back")
      | .error e => fail (saveError ++ "; rollback unmount also failed: " ++ e.message) :
        Exec D Unit).run {
          table := t
          state := (w.state.insert (env.record unique d)).1
          disk
          trace := w.trace ++ madeEvents env unique d} = (r,v)) :
    Mounting env J unique d w r v := by
  have hrestore : restore d.key (w.state.get d.key) {
      table := t
      state := (w.state.insert (env.record unique d)).1
      disk
      trace := w.trace ++ madeEvents env unique d} =
      {w with table := t,disk,trace := w.trace ++ madeEvents env unique d} :=
    restore_insert {w with table := t,disk,trace := w.trace ++ madeEvents env unique d}
      (env.record unique d) d.key rfl
  rw [run_bind_modify,hrestore] at h
  rcases syscall_bind' hJ h with ⟨e,t',ht',hf,rfl,rfl⟩ | ⟨t',ht',-,h⟩
  · obtain ⟨t₀,t₁,h₀,hempty,h₁,h₂⟩ := ht
    exact .stuck _ e t' ⟨t₀,t₁,h₀,hempty,h₁,hJ.trans h₂ ht'⟩ disk hd hf
  rw [run_bind_attempt] at h
  generalize hu : (unmountVerified env .rollback d.target
    ((env.newMount d).readIdentity unique) unique).run _ = p at h
  obtain ⟨result,u⟩ := p
  obtain ⟨t₀,t₁,h₀,hempty,h₁,h₂⟩ := ht
  have hrolled : ∀ e, Mounting env J unique d w (.error e) u := fun e =>
    .rolledBack e t' ⟨t₀,t₁,h₀,hempty,h₁,hJ.trans h₂ ht'⟩ disk hd result u
      (unmountVerified_run hJ hu)
  cases result with
  | ok _ =>
    simp only [run_fail,Prod.mk.injEq] at h
    obtain ⟨rfl,rfl⟩ := h
    exact hrolled _
  | error e =>
    simp only [run_fail,Prod.mk.injEq] at h
    obtain ⟨rfl,rfl⟩ := h
    exact hrolled _

theorem tryMount_run (hJ : Drifts J env) {unique : Bool} {d : DesiredMount} {w v : World D}
    {r : Except String Unit} (h : (tryMount env unique d).run w = (r,v)) :
    Mounting env J unique d w r v := by
  unfold tryMount at h
  rcases syscall_bind' hJ h with ⟨e,t,ht,-,rfl,rfl⟩ | ⟨t₁,h₁,-,h⟩
  · exact .notAttached _ _ ht
  rcases syscall_bind hJ h with ⟨e,t,ht,-,rfl,rfl⟩ | ⟨t₂,h₂,-,h⟩
  · exact .notAttached _ _ (hJ.trans h₁ ht)
  rcases syscall_bind' hJ h with ⟨e,t,ht,-,rfl,rfl⟩ | ⟨t₃,h₃,-,h⟩
  · exact .notAttached _ _ (hJ.trans h₁ (hJ.trans h₂ ht))
  have hw₃ : J w.table t₃ := hJ.trans h₁ (hJ.trans h₂ h₃)
  rcases run_bind h with ⟨e,hx,rfl⟩ | ⟨fd,u,hx,h⟩
  · obtain ⟨e',he⟩ := run_mapError_error hx
    obtain ⟨t,ht,rfl,-⟩ := ensureDirsBeneath_run hJ he
    exact .notAttached _ _ (hJ.trans hw₃ ht)
  obtain ⟨t₄,h₄,rfl,hfd⟩ := ensureDirsBeneath_run hJ (run_mapError_ok hx)
  have hfd : fd = t₄.openDir (env.dir .ensureDirs) := by
    rcases hfd with ⟨e,he⟩ | hok
    · cases he
    · cases hok; rfl
  have hw₄ : J w.table t₄ := hJ.trans hw₃ h₄
  rcases run_bind h with ⟨e,hx,rfl⟩ | ⟨occupied,u,hx,h⟩
  · obtain ⟨e',he⟩ := run_mapError_error hx
    obtain ⟨t,ht,rfl,-⟩ := isMountRoot_run hJ he
    exact .notAttached _ _ (hJ.trans hw₄ ht)
  obtain ⟨t₅,h₅,rfl,hocc⟩ := isMountRoot_run hJ (run_mapError_ok hx)
  have hocc : occupied = fd.mount.isSome := by
    rcases hocc with ⟨e,he⟩ | hok
    · cases he
    · cases hok; rfl
  split at h
  · simp only [run_fail,Prod.mk.injEq] at h
    obtain ⟨rfl,rfl⟩ := h
    exact .notAttached _ _ (hJ.trans hw₄ h₅)
  rename_i hfree
  have hempty : t₄ (env.dir .ensureDirs) = [] := by
    rw [hocc,hfd] at hfree
    simpa [Table.openDir] using hfree
  have hdir : fd.dir = env.dir .ensureDirs := by rw [hfd]; rfl
  rcases run_bind h with ⟨e,hx,rfl⟩ | ⟨identity,u,hx,h⟩
  · rcases createBind_run hJ hx with ⟨e',t,ht,-,rfl⟩ | ⟨t₆,t₇,h₆,h₇,hread⟩
    · exact .notAttached _ _ (hJ.trans hw₄ (hJ.trans h₅ ht))
    · rcases hread with ⟨e',hf,-,rfl⟩ | ⟨hok,-⟩
      · rw [hdir] at h₇ ⊢
        exact .unread _ e' _ ⟨t₄,t₆,hw₄,hempty,hJ.trans h₅ h₆,h₇⟩ hf
      · cases hok
  rcases createBind_run hJ hx with ⟨e',t,ht,he,-⟩ | ⟨t₆,t₇,h₆,h₇,hread⟩
  · cases he
  rcases hread with ⟨e',-,he,-⟩ | ⟨hok,rfl⟩
  · cases he
  cases hok
  rw [hdir] at h₇ h
  rw [insertRecord_bind,run_bind_attempt] at h
  simp only [newRecord_key] at h
  have ha : ∀ t, J t₇ t → Attaches env J d w t := fun t ht =>
    ⟨t₄,t₆,hw₄,hempty,hJ.trans h₅ h₆,hJ.trans h₇ ht⟩
  generalize hp : (persist env).run _ = p at h
  obtain ⟨saved,u⟩ := p
  obtain ⟨t₈,disk,h₈,rfl,hpersist⟩ := persist_run hJ hp
  cases hpersist with
  | saved =>
    simp only [run_pure,Prod.mk.injEq] at h
    obtain ⟨rfl,rfl⟩ := h
    exact .recorded t₈ (ha t₈ h₈)
  | unchanged saveError => exact rollback_run hJ (ha t₈ h₈) (.inl rfl) h
  | unsynced saveError e' hf => exact rollback_run hJ (ha t₈ h₈) (.inr ⟨e',hf⟩) h

/-- The outcomes of `try_unmount`. -/
inductive Unmounting (env : StepEnv D) (J : Table D → Table D → Prop) (unique : Bool)
    (record : MountRecord) (w : World D) : Except String Unit → World D → Prop
  /-- Nothing was unmounted. -/
  | notUnmounted (e : String) (t : Table D) (ht : J w.table t) :
    Unmounting env J unique record w (.error e) {w with table := t}
  /-- The mount was unmounted and its record removed from memory, perhaps not from disk. -/
  | unmounted (r : Except String Unit) (m : Mount) (t t' : Table D) (disk : State)
    (ht : J w.table t) (hm : (t (env.dir .unmount)).head? = some m)
    (hv : (m.readIdentity unique).matches record.identity = true)
    (ht' : J (t.detach (env.dir .unmount)) t')
    (hd : Persisted env {w with state := w.state.remove record.key} r disk) :
    Unmounting env J unique record w r {
      table := t'
      state := w.state.remove record.key
      disk
      trace := w.trace ++
        [.umount record.targetLocation (env.dir .unmount) m (t (env.dir .unmount))]}

theorem tryUnmount_run (hJ : Drifts J env) {unique : Bool} {record : MountRecord} {w v : World D}
    {r : Except String Unit} (h : (tryUnmount env unique record).run w = (r,v)) :
    Unmounting env J unique record w r v := by
  unfold tryUnmount at h
  rcases syscall_bind' hJ h with ⟨e,t,ht,-,rfl,rfl⟩ | ⟨t₁,h₁,-,h⟩
  · exact .notUnmounted e t ht
  rcases run_bind h with ⟨e,hx,rfl⟩ | ⟨_,u,hx,h⟩
  · obtain ⟨e',he⟩ := run_mapError_error hx
    cases unmountVerified_run hJ he with
    | failed e t ht _ => exact .notUnmounted _ t (hJ.trans h₁ ht)
    | refused e t ht _ => exact .notUnmounted _ t (hJ.trans h₁ ht)
  cases unmountVerified_run hJ (run_mapError_ok hx) with
  | detached m t ht hm hv =>
    rw [run_bind_modify,run_bind_attempt] at h
    generalize hp : (persist env).run _ = p at h
    obtain ⟨saved,u⟩ := p
    obtain ⟨t₂,disk,h₂,rfl,hpersist⟩ := persist_run hJ hp
    rw [run_bind_attempt] at h
    generalize hs : (syscall env .removeTargetDir).run _ = p at h
    obtain ⟨removed,u⟩ := p
    obtain ⟨t₃,h₃,rfl,-⟩ := syscall_run hJ hs
    simp only [run_ofExcept,Prod.mk.injEq] at h
    obtain ⟨rfl,rfl⟩ := h
    refine .unmounted saved m t t₃ disk (hJ.trans h₁ ht) hm hv (hJ.trans h₂ h₃) ?_
    cases hpersist with
    | saved => exact .saved
    | unchanged e => exact .unchanged e
    | unsynced e e' hf => exact .unsynced e e' hf

omit [DecidableEq D] in
/-- The outcomes of `drop_record`: memory loses the record, the file perhaps not. -/
theorem dropRecord_run (hJ : Drifts J env) {record : MountRecord} {w v : World D}
    {r : Except String Unit} (h : (dropRecord env record).run w = (r,v)) :
    ∃ t disk, J w.table t ∧ Persisted env {w with state := w.state.remove record.key} r disk ∧
      v = {w with table := t,state := w.state.remove record.key,disk} := by
  unfold dropRecord at h
  rw [run_bind_modify] at h
  obtain ⟨t,disk,ht,rfl,hp⟩ := persist_run hJ h
  exact ⟨t,disk,ht,hp,rfl⟩

/-! ### Runs of a plan -/

/-- A step is skipped, or its dependencies are done and it runs. -/
theorem executeStep_cases (env : ℕ → StepEnv D) (unique : Bool) (results : List StepResult)
    (w : World D) (step : Step) :
    executeStep env unique (results,w) step = (results ++ [.skipped],w) ∨
      ∃ r v, (∀ i ∈ step.dependsOn, results[i]? = some .done) ∧
        (runAction (env results.length) unique step.action).run w = (r,v) ∧
        executeStep env unique (results,w) step = (results ++ [intoResult r],v) := by
  unfold executeStep
  by_cases hb : (step.dependsOn.any fun i => results[i]? ≠ some .done) = true
  · exact .inl (by simp only [hb,if_true])
  · right
    refine ⟨_,_,?_,rfl,by simp only [hb]; rfl⟩
    simpa using hb

/-- The run rule: what holds at the start of an execution and is kept by every step,
skipped or run, holds at its end. -/
theorem execute_induction {P : ℕ → List StepResult → World D → Prop} {env : ℕ → StepEnv D}
    {unique : Bool} {plan : Plan} {w : World D} (h0 : P 0 [] w)
    (hskip : ∀ i step results w, plan.steps[i]? = some step → results.length = i →
      P i results w → P (i+1) (results ++ [.skipped]) w)
    (hrun : ∀ i step results w r v, plan.steps[i]? = some step → results.length = i →
      P i results w → (∀ j ∈ step.dependsOn, results[j]? = some .done) →
      (runAction (env i) unique step.action).run w = (r,v) →
      P (i+1) (results ++ [intoResult r]) v) :
    P plan.steps.length (execute env unique plan w).1 (execute env unique plan w).2 := by
  have hloop := Lists.foldl_induction_prefix
    (P := fun done acc => acc.1.length = done.length ∧ P done.length acc.1 acc.2)
    (f := executeStep env unique) (b := ([],w)) plan.steps ⟨rfl,h0⟩
  refine (hloop ?_).2
  intro done step acc hpre ih
  obtain ⟨results,w'⟩ := acc
  obtain ⟨hlen,hw'⟩ := ih
  have hlen : results.length = done.length := hlen
  have hget : plan.steps[done.length]? = some step := by
    obtain ⟨rest,hrest⟩ := hpre
    rw [← hrest]
    simp
  rcases executeStep_cases env unique results w' step with hs | ⟨r,v,hdeps,hr,hs⟩
  · rw [hs]
    exact ⟨by simp [hlen],by simpa using hskip _ _ _ _ hget hlen hw'⟩
  · rw [hs]
    rw [hlen] at hr
    exact ⟨by simp [hlen],by simpa using hrun _ _ _ _ _ _ hget hlen hw' hdeps hr⟩

end
end Byssus
