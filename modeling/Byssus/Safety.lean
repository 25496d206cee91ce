import Byssus.Outcomes
import Byssus.PlanFrozen

/-! Which mounts a pass may unmount: those a record of the pass describes, and those
the pass itself made and could not record. -/
namespace Byssus

variable {D : Type}

/-- All mounts of the table have identities from `U`; their attributes may change. -/
def Within (U : Set MountIdentity) (t : Table D) : Prop := ∀ dir, ∀ m ∈ t dir, m.identity ∈ U

/-- Mounts with different identities in `U` cannot be taken for each other. -/
def NotReused (unique : Bool) (U : Set MountIdentity) : Prop :=
  ∀ x y : Mount, x.identity ∈ U → y.identity ∈ U →
    (x.readIdentity unique).matches (y.readIdentity unique) = true → x.identity = y.identity

/-- The mount on top at the target of a record of the input, which is not frozen and
whose identity it has. -/
def RecordedUmount (input : PlanInput) (unique : Bool) (target : Location) (m : Mount)
    (stack : List Mount) : Prop :=
  ∃ r ∈ input.state.records, r.group ∉ input.frozenGroups ∧ r.targetLocation = target ∧
    stack.head? = some m ∧ (m.readIdentity unique).matches r.identity = true

/-- The unmounted mount was attached and its identity read back just before.  Others may have
changed its attributes since. -/
def RollbackUmount (unique : Bool) (target : Location) (dir : D) (m : Mount)
    (stack : List Mount) (trace : List (Event D)) : Prop :=
  ∃ before after dir' made d, d.target = target ∧ m.identity = made.identity ∧
    trace = before ++ .attached dir' made d :: .readBack made (made.readIdentity unique) ::
      .umount target dir m stack :: after

/-- Every unmount of the history is one of the two kinds. -/
def Legitimate (input : PlanInput) (unique : Bool) (trace : List (Event D)) : Prop :=
  ∀ target dir m stack, .umount target dir m stack ∈ trace →
    RecordedUmount input unique target m stack ∨ RollbackUmount unique target dir m stack trace

namespace Legitimate

variable {input : PlanInput} {unique : Bool} {trace : List (Event D)}

theorem append (h : Legitimate input unique trace) {events : List (Event D)}
    (he : ∀ target dir m stack, .umount target dir m stack ∈ events →
      RecordedUmount input unique target m stack ∨
        RollbackUmount unique target dir m stack (trace++events)) :
    Legitimate input unique (trace++events) := by
  intro target dir m stack hm
  rcases List.mem_append.mp hm with hm | hm
  · rcases h target dir m stack hm with hr | ⟨before,after,dir',made,d,hd,hi,ht⟩
    · exact .inl hr
    · exact .inr ⟨before,after++events,dir',made,d,hd,hi,by simp [ht]⟩
  · exact he target dir m stack hm

/-- Events that are no unmounts. -/
theorem append_quiet (h : Legitimate input unique trace) {events : List (Event D)}
    (he : ∀ target dir m stack, .umount target dir m stack ∉ events) :
    Legitimate input unique (trace++events) :=
  h.append fun target dir m stack hm => absurd hm (he target dir m stack)

end Legitimate

section
variable [DecidableEq D] {env : StepEnv D} {unique : Bool} {U : Set MountIdentity}

theorem Within.attach {t : Table D} (h : Within U t) {dir : D} {m : Mount} (hm : m.identity ∈ U) :
    Within U (t.attach dir m) := by
  intro d x hx
  rcases Table.mem_attach.mp hx with ⟨-,rfl⟩ | hx
  · exact hm
  · exact h d x hx

theorem Within.detach {t : Table D} (h : Within U t) (dir : D) : Within U (t.detach dir) :=
  fun d x hx => h d x ((t.detach_sublist dir d).subset hx)

/-- Other processes bring no mounts with identities from outside `U`.  They may attach, move,
detach and remount anything else. -/
def KeepsWithin (U : Set MountIdentity) (env : StepEnv D) : Prop :=
  ∀ op t, Within U t → Within U (env.before op t)

omit [DecidableEq D] in
theorem KeepsWithin.drifts (h : KeepsWithin U env) :
    Drifts (fun t t' => Within U t → Within U t') env where
  refl := fun _ h => h
  trans := fun h₁ h₂ h => h₂ (h₁ h)
  before := h

/-- What holds of the world after every step of a pass. -/
structure SafeWorld (input : PlanInput) (unique : Bool) (U : Set MountIdentity) (w : World D) : Prop where
  within : Within U w.table
  legitimate : Legitimate input unique w.trace

variable {input : PlanInput} {w v : World D} {r : Except String Unit}

theorem Attaches.within {d : DesiredMount} {t : Table D} (hw : Within U w.table)
    (hm : (env.newMount d).identity ∈ U)
    (h : Attaches env (fun t t' => Within U t → Within U t') d w t) : Within U t := by
  obtain ⟨t₀,t₁,h₀,-,h₁,h₂⟩ := h
  exact h₂ ((h₁ (h₀ hw)).attach hm)

/-- A mount step unmounts nothing but the mount it made. -/
theorem tryMount_safe (henv : KeepsWithin U env) (hU : NotReused unique U) {d : DesiredMount}
    (hm : (env.newMount d).identity ∈ U) (hw : SafeWorld input unique U w)
    (h : (tryMount env unique d).run w = (r,v)) : SafeWorld input unique U v := by
  cases tryMount_run henv.drifts h with
  | notAttached e t ht => exact ⟨ht hw.within,hw.legitimate⟩
  | unread e e' t ht hf =>
    exact ⟨ht.within hw.within hm,hw.legitimate.append_quiet (by simp)⟩
  | recorded t ht =>
    exact ⟨ht.within hw.within hm,hw.legitimate.append_quiet (by simp [madeEvents])⟩
  | stuck e e' t ht disk hd hf =>
    exact ⟨ht.within hw.within hm,hw.legitimate.append_quiet (by simp [madeEvents])⟩
  | rolledBack e t ht disk hd r' v hu =>
    have hin : Within U t := ht.within hw.within hm
    have hl : Legitimate input unique (w.trace ++ madeEvents env unique d) :=
      hw.legitimate.append_quiet (by simp [madeEvents])
    cases hu with
    | failed e' t' ht' hf' => exact ⟨ht' hin,hl⟩
    | refused e' t' ht' hv => exact ⟨ht' hin,hl⟩
    | detached m t' ht' htop hv =>
      have hmU : m.identity ∈ U := ht' hin _ m (List.mem_of_head? htop)
      have hmm : m.identity = (env.newMount d).identity := hU m _ hmU hm hv
      refine ⟨(ht' hin).detach _,?_⟩
      apply hl.append
      intro target dir m stack he
      simp only [List.mem_singleton,Event.umount.injEq] at he
      obtain ⟨rfl,rfl,rfl,rfl⟩ := he
      exact .inr ⟨w.trace,[],env.dir .ensureDirs,env.newMount d,d,rfl,hmm,by simp [madeEvents]⟩

/-- An unmount step unmounts the verified mount on top at the record's target. -/
theorem tryUnmount_safe (henv : KeepsWithin U env) {record : MountRecord}
    (hr : record ∈ input.state.records) (hf : record.group ∉ input.frozenGroups)
    (hw : SafeWorld input unique U w) (h : (tryUnmount env unique record).run w = (r,v)) :
    SafeWorld input unique U v := by
  cases tryUnmount_run henv.drifts h with
  | notUnmounted e t ht => exact ⟨ht hw.within,hw.legitimate⟩
  | unmounted r m t t' disk ht hm hv ht' hd =>
    refine ⟨ht' ((ht hw.within).detach _),?_⟩
    apply hw.legitimate.append
    intro target dir x stack he
    simp only [List.mem_singleton,Event.umount.injEq] at he
    obtain ⟨rfl,rfl,rfl,rfl⟩ := he
    exact .inl ⟨record,hr,hf,rfl,hm,hv⟩

omit [DecidableEq D] in
theorem dropRecord_safe (henv : KeepsWithin U env) {record : MountRecord}
    (hw : SafeWorld input unique U w) (h : (dropRecord env record).run w = (r,v)) :
    SafeWorld input unique U v := by
  obtain ⟨t,disk,ht,-,rfl⟩ := dropRecord_run henv.drifts h
  exact ⟨ht hw.within,hw.legitimate⟩

theorem runAction_safe (henv : KeepsWithin U env) (hU : NotReused unique U) {a : Action}
    (ha : a ∈ (plan input).steps.map Step.action)
    (hnew : ∀ d, a = .mount d → (env.newMount d).identity ∈ U) (hw : SafeWorld input unique U w)
    (h : (runAction env unique a).run w = (r,v)) : SafeWorld input unique U v := by
  cases a with
  | mount d => exact tryMount_safe henv hU (hnew d rfl) hw h
  | unmount record reason =>
    have hr := plan_removes_record ha (.inl ⟨reason,rfl⟩)
    exact tryUnmount_safe henv hr (plan_notFrozen ha) hw h
  | dropRecord record reason => exact dropRecord_safe henv hw h

/-- For every input, every outcome of the operations and every change other processes
make between them: a pass unmounts the mount on top at the target of one of its records,
if it is the recorded one and the group is not frozen, or a mount that it just made and
whose identity it had read back. -/
theorem umount_only_ours (input : PlanInput) (env : ℕ → StepEnv D) (unique : Bool)
    (w : World D) (U : Set MountIdentity) (hU : NotReused unique U) (hw : Within U w.table)
    (hnew : ∀ i d deps, (plan input).steps[i]? = some ⟨.mount d,deps⟩ →
      ((env i).newMount d).identity ∈ U)
    (henv : ∀ i, KeepsWithin U (env i)) (htrace : w.trace = []) :
    Legitimate input unique (execute env unique (plan input) w).2.trace := by
  have hsafe : SafeWorld input unique U (execute env unique (plan input) w).2 := by
    apply execute_induction (P := fun _ _ w => SafeWorld input unique U w)
    · exact ⟨hw,by rw [htrace]; intro _ _ _ _ h; cases h⟩
    · intro i step results w' _ _ hw'
      exact hw'
    · intro i step results w' r v hget _ hw' _ hrun
      have hmem : step.action ∈ (plan input).steps.map Step.action :=
        List.mem_map_of_mem (List.mem_of_getElem? hget)
      refine runAction_safe (henv i) hU hmem ?_ hw' hrun
      intro d hd
      apply hnew i d step.dependsOn
      rw [hget,← hd]
  exact hsafe.legitimate

end

namespace UmountRun

open Sample

/-- A member has left its group, and the mount of a new one cannot be recorded. -/
def input : PlanInput where
  desired := [desired group b "y"]
  state := state [record group a "x" 7 42]
  frozenGroups := ∅
  observations := observations [(⟨group,b⟩,.resolved (dir 43))]
    [(view "x",.mounted (identity 7 42) none),(view "y",.notMounted)]

/-- Everything is remounted with no restriction. -/
def remount (t : Table ℕ) : Table ℕ := fun d =>
  (t d).map fun m => ⟨m.identity,⟨false,false,false,false,false⟩⟩

/-- Others remount everything before each unmount; the state file can be written for the unmount
only. -/
def env (i : ℕ) : StepEnv ℕ where
  before := fun op t => if op = .unmount ∨ op = .rollback then remount t else t
  fault := fun op => if i = 1 ∧ op = .saveFile then some "disk full" else none
  dir := fun _ => i
  source := dir 43
  mntId := 8
  mntIdUnique := some 8
  inherited := ⟨false,false,false,false,false⟩
  now := 0

def world : World ℕ where
  table := fun d => if d = 0 then [⟨identity 7 42,attrBits .default⟩] else []
  state := input.state
  disk := input.state
  trace := []

/-- The run unmounts twice: the recorded mount, and the one it could not record. -/
theorem umount_only_ours_run :
    ((execute env true (plan input) world).2.trace.countP fun e =>
        match e with | .umount _ _ _ _ => true | _ => false) = 2 ∧
      Legitimate input true (execute env true (plan input) world).2.trace := by
  have hp : (plan input).steps =
      [⟨.unmount (record group a "x" 7 42) .notMember,[]⟩,⟨.mount (desired group b "y"),[]⟩] := by
    decide +kernel
  refine ⟨by decide +kernel,
    umount_only_ours input env true world {identity 7 42,identity 8 43} ?_ ?_ ?_ ?_ rfl⟩
  · rintro ⟨_,_⟩ ⟨_,_⟩ (rfl | rfl) (rfl | rfl) h
    · rfl
    · exact absurd h Bool.false_ne_true
    · exact absurd h Bool.false_ne_true
    · rfl
  · intro dir m hm
    by_cases hd : dir = 0
    · subst hd
      rw [List.mem_singleton.mp hm]
      exact .inl rfl
    · simp [world,hd] at hm
  · intro i d deps h
    rw [hp] at h
    match i with
    | 0 => simp at h
    | 1 => exact .inr rfl
    | i+2 => simp at h
  · intro i op t ht
    simp only [env]
    split_ifs
    · intro dir m hm
      obtain ⟨m',hm',rfl⟩ := List.mem_map.mp hm
      exact ht dir m' hm'
    · exact ht

end UmountRun
end Byssus
