import Byssus.TreeExecution

/-! What an execution does to directories.  It makes those that the paths of its mounts name, and
removes only empty ones named as the target of a mount that it unmounted; what holds anything else is
left, whatever other processes do meanwhile. -/
namespace Byssus

open Program Prog DirTree

/-- The name of a target in its directory. -/
def leafName (path : Text) : Text := match rsplitOnce path with
  | some (_,leaf) => leaf
  | none => path

/-- The names of the directories that removals may take away. -/
def Plan.leaves (plan : Plan) : Set Text :=
  {n | ∃ step ∈ plan.steps, ∃ record reason, step.action = .unmount record reason ∧
    n = leafName record.target}

/-- What the calls of a step keep, with the changes that the step may make to directories. -/
structure StepKeeps (env : TreeEnv) (action : Action) (P : TreeWorld → Prop) : Prop where
  world : ∀ w v, P w → P {w with world := v}
  call : ∀ w, P w → P (env.disturb w)
  made : ∀ d (parent : Fd Place) c k w a, action = .mount d → c ∈ d.target.path.splitOn '/' →
    isPlain c = true → P w → w.tree.mkdir parent.place.2 c (env.fresh k) = .ok a →
    P {w with tree := w.tree.apply a, changes := w.changes++[(w.tree,a)]}
  removed : ∀ record reason busy (parent : Fd Place) w a, action = .unmount record reason → P w →
    w.tree.rmdir busy parent.place.2 (leafName record.target) = .ok a →
    P {w with tree := w.tree.apply a, changes := w.changes++[(w.tree,a)]}

namespace StepKeeps

variable {env : TreeEnv} {action : Action} {P : TreeWorld → Prop} {α ε : Type}

theorem lift (h : StepKeeps env action P) (x : Prog (World Place) ε α) :
    Keeps P (OnTree.lift x) fun _ => True :=
  .of_run fun w hw => h.world w (x.run w.world).2 hw

theorem resolveDir (h : StepKeeps env action P) (root : Fd Place) (path : Text) :
    Keeps P (resolveDir env root path) fun _ => True :=
  (resolveDir_triple (fsCall_triple h.call) root path).mono (fun _ hs => hs)
    (fun _ _ hs => ⟨hs.1,trivial⟩) fun _ _ hs => hs.1

theorem unmountVerified (h : StepKeeps env action P) (target : Location)
    (expected : MountIdentity) (unique : Bool) :
    Keeps P (OnTree.unmountVerified env target expected unique) fun _ => True := by
  refine .bind (.mapError (h.resolveDir _ _)) fun fd _ => ?_
  exact .bind (Q := fun _ => True) (.ofExcept fun _ _ => trivial) fun _ _ => h.lift _

theorem tryMount {d : DesiredMount} (h : StepKeeps env (.mount d) P) (unique : Bool) :
    Keeps P (OnTree.tryMount env unique d) fun _ => True := by
  refine .bind (h.lift _) fun _ _ => ?_
  refine .bind (.mapError (.mapError (h.resolveDir _ _))) fun source _ => ?_
  refine .bind (h.lift _) fun _ _ => ?_
  have hwalk : KeepsWalk env (d.target.path.splitOn '/') P :=
    ⟨h.call,fun parent c k w a hc hplain => h.made d parent c k w a rfl hc hplain⟩
  have hensure : Keeps P (ensureDirs env (env.root d.target.root) (d.target.path.splitOn '/'))
      fun _ => True :=
    (hwalk.ensureDirs _).mono (fun _ hs => hs) (fun _ _ hs => ⟨hs.1,trivial⟩) fun _ _ hs => hs
  refine .bind (.mapError (.mapError hensure)) fun target _ => ?_
  refine .bind (.mapError (h.lift _)) fun occupied _ => ?_
  split_ifs
  · exact .fail
  · refine .bind (h.lift _) fun identity _ => ?_
    refine .bind (h.lift _) fun previous _ => ?_
    refine .bind (.attempt (h.lift _)) fun saved _ => ?_
    cases saved with
    | ok _ => exact .pure trivial
    | error e =>
      refine .bind (h.lift _) fun _ _ => ?_
      refine .bind (h.lift _) fun _ _ => ?_
      refine .bind (.attempt (h.unmountVerified _ _ _)) fun rollback _ => ?_
      cases rollback <;> exact .fail

theorem removeTargetDir {record : MountRecord} {reason : UnmountReason}
    (h : StepKeeps env (.unmount record reason) P) :
    Keeps P (OnTree.removeTargetDir env record.targetLocation) fun _ => True := by
  have hremove : ∀ above leaf, leaf = leafName record.target → Keeps P (removeEmptyDir env
      (env.root record.targetLocation.root) above leaf) fun _ => True := by
    rintro above _ rfl
    exact removeEmptyDir_keeps h.call (fun busy parent w a _ hw ha =>
      h.removed record reason busy parent w a rfl hw ha) _ _
  unfold OnTree.removeTargetDir
  refine .bind (h.lift _) fun _ _ => .bind (.mapError (hremove _ _ ?_)) fun _ _ => .pure trivial
  simp only [leafName,MountRecord.targetLocation]
  cases rsplitOnce record.target <;> rfl

theorem tryUnmount {record : MountRecord} {reason : UnmountReason}
    (h : StepKeeps env (.unmount record reason) P) (unique : Bool) :
    Keeps P (OnTree.tryUnmount env unique record) fun _ => True := by
  refine .bind (h.lift _) fun _ _ => ?_
  refine .bind (.mapError (h.unmountVerified _ _ _)) fun _ _ => ?_
  refine .bind (h.lift _) fun _ _ => ?_
  refine .bind (.attempt (h.lift _)) fun persisted _ => ?_
  refine .bind (.attempt h.removeTargetDir) fun _ _ => ?_
  exact .ofExcept fun _ _ => trivial

theorem runAction (h : StepKeeps env action P) (unique : Bool) :
    Keeps P (OnTree.runAction env unique action) fun _ => True := by
  cases action with
  | mount d => exact h.tryMount unique
  | unmount record reason => exact h.tryUnmount unique
  | dropRecord record reason => exact h.lift _

end StepKeeps

/-- What every step keeps, an execution keeps. -/
theorem execute_keepsTree {env : ℕ → TreeEnv} {P : TreeWorld → Prop} (unique : Bool) {plan : Plan}
    (h : ∀ k, ∀ step ∈ plan.steps, StepKeeps (env k) step.action P) {w : TreeWorld} (hw : P w) :
    P (OnTree.execute env unique plan w).2 := by
  refine Lists.foldl_induction_prefix
    (P := fun _ (acc : List StepResult × TreeWorld) => P acc.2) plan.steps hw ?_
  intro done step acc hpre hacc
  have hstep : step ∈ plan.steps := hpre.subset (by simp)
  simp only [OnTree.executeStep]
  split_ifs
  · exact hacc
  · exact ((h acc.1.length step hstep).runAction unique).state hacc

/-- A change that the plan accounts for, in the tree it was made to. -/
inductive Plan.Accounts (plan : Plan) (tree : FsTree) : Change DevIno Text → Prop
  | made {step : Step} {d : DesiredMount} (hs : step ∈ plan.steps) (ha : step.action = .mount d)
      {dir fresh : DevIno} {c : Text} (hc : c ∈ d.target.path.splitOn '/') (hplain : isPlain c = true)
      (hdir : tree.kind dir = .directory) (hnew : c ∉ tree.entries dir)
      (hfree : tree.kind fresh = .free) : plan.Accounts tree (.made dir c fresh)
  | removed {step : Step} {record : MountRecord} {reason : UnmountReason} (hs : step ∈ plan.steps)
      (ha : step.action = .unmount record reason) {dir gone : DevIno}
      (hl : tree.lookup dir (leafName record.target) = .ok gone)
      (hempty : (tree.entries gone).isEmpty = true) :
      plan.Accounts tree (.removed dir (leafName record.target) gone)

/-- Each change keeps what cannot be removed by its name. -/
theorem Plan.Accounts.stays {plan : Plan} {tree : FsTree} {c : Change DevIno Text}
    (h : plan.Accounts tree c) : Tree.Stays plan.leaves tree (tree.apply c) := by
  cases h with
  | made _ _ _ _ hdir hnew hfree => exact (Tree.Grows.addDir hdir hnew hfree).stays
  | removed hs ha hl hempty => exact .dropDir ⟨_,hs,_,_,ha,rfl⟩ hl hempty

/-- Other processes take nothing away; the mounts may change. -/
def TreeEnv.OthersGrow (env : TreeEnv) : Prop :=
  ∀ (k : ℕ) (tree : FsTree) (table : Table Place), tree.Grows (env.others k (tree,table)).1

/-- The changes so far are those from before and some that the plan accounts for; and where nobody
else takes anything away, what was kept is kept. -/
def Spared (plan : Plan) (grow : Prop) (w v : TreeWorld) : Prop :=
  (∃ made, v.changes = w.changes++made ∧ ∀ tc ∈ made, plan.Accounts tc.1 tc.2) ∧
    (grow → Tree.Stays plan.leaves w.tree v.tree)

theorem Spared.change {plan : Plan} {grow : Prop} {w v : TreeWorld} {c : Change DevIno Text}
    (h : Spared plan grow w v) (hc : plan.Accounts v.tree c) :
    Spared plan grow w {v with tree := v.tree.apply c, changes := v.changes++[(v.tree,c)]} := by
  obtain ⟨⟨made,hmade,haccounts⟩,hstays⟩ := h
  refine ⟨⟨made++[(v.tree,c)],by simp [hmade],fun tc htc => ?_⟩,fun hg => (hstays hg).trans hc.stays⟩
  rcases List.mem_append.mp htc with htc | htc
  · exact haccounts tc htc
  · cases List.mem_singleton.mp htc
    exact hc

theorem stepKeeps_spared {env : TreeEnv} {plan : Plan} {grow : Prop}
    (hgrow : grow → env.OthersGrow) {step : Step} (hs : step ∈ plan.steps) (w : TreeWorld) :
    StepKeeps env step.action (Spared plan grow w) where
  world := fun _ _ h => h
  call := fun v h => ⟨h.1,fun hg => (h.2 hg).trans (hgrow hg _ _ _).stays⟩
  made := by
    intro d parent c k v a ha hc hplain h hmk
    obtain ⟨hdir,hnew,hfree,rfl⟩ := Tree.mkdir_ok_iff.mp hmk
    exact h.change (.made hs ha hc hplain hdir hnew hfree)
  removed := by
    intro record reason busy parent v a ha h hrm
    obtain ⟨gone,rfl,hl,-,hempty⟩ := Tree.rmdir_ok hrm
    exact h.change (.removed hs ha hl hempty)

/-- Whatever other processes do, each change that an execution makes to directories is one that the
plan accounts for, and takes away nothing that holds anything but empty targets; so where nobody else
takes anything away, all such entries are still there when the execution ends. -/
theorem execute_spares (env : ℕ → TreeEnv) (unique : Bool) (plan : Plan) (w : TreeWorld) :
    (∃ made, (OnTree.execute env unique plan w).2.changes = w.changes++made ∧
      ∀ tc ∈ made, plan.Accounts tc.1 tc.2 ∧ Tree.Stays plan.leaves tc.1 (tc.1.apply tc.2)) ∧
    ((∀ k, (env k).OthersGrow) →
      Tree.Stays plan.leaves w.tree (OnTree.execute env unique plan w).2.tree) := by
  obtain ⟨⟨made,hmade,haccounts⟩,hstays⟩ := execute_keepsTree unique
    (fun k step hs => stepKeeps_spared (fun hg : ∀ k, (env k).OthersGrow => hg k) hs w)
    (w := w) ⟨⟨[],by simp,by simp⟩,fun _ => .refl _⟩
  exact ⟨⟨made,hmade,fun tc htc => ⟨haccounts tc htc,(haccounts tc htc).stays⟩⟩,hstays⟩

/-! The target of the member that has left is removed, while another process makes a directory; a file
of the same name elsewhere is kept. -/
namespace SampleSpares

open SampleDirs

def plan : Plan := Byssus.plan (passInput SampleWalk.left SampleWalk.life.daemon.runtime
  SampleWalk.life.daemon.world.state SampleWalk.life.daemon.degraded)

/-- Before each call, another process tries to make a directory in the root. -/
def env : TreeEnv := {SampleWalk.env with
  others := fun _ w => match w.1.mkdir (inode 1) "new".toList (inode 9) with
    | .ok c => (w.1.apply c,w.2)
    | .error _ => w}

theorem othersGrow : env.OthersGrow := by
  intro k tree table
  simp only [env]
  split
  · rename_i c hc
    obtain ⟨hdir,hnew,hfree,rfl⟩ := Tree.mkdir_ok_iff.mp hc
    exact .addDir hdir hnew hfree
  · exact ⟨.refl _,fun _ _ => rfl⟩

/-- The root holds the target and the directory `docs` with the file. -/
def tree : FsTree where
  kind := fun i =>
    if i = inode 4 then .other else if i ∈ [inode 1,inode 2,inode 3] then .directory else .free
  entries := fun i =>
    if i = inode 1 then
      ((∅ : Std.ExtTreeMap Text DevIno).insert "libcurl".toList (inode 2)).insert "docs".toList (inode 3)
    else if i = inode 3 then (∅ : Std.ExtTreeMap Text DevIno).insert "libcurl".toList (inode 4)
    else ∅

def world : TreeWorld := {SampleWalk.world with tree := tree}

def after : TreeWorld := (OnTree.execute (fun _ => env) true plan world).2

theorem docs_kept : tree.Kept plan.leaves (inode 1) "docs".toList (inode 3) :=
  .holds (by decide) (by decide +kernel)
    (.node (n := "libcurl".toList) (i := inode 4) (by decide) (by decide +kernel) (.inr rfl))

theorem execute_spares_run : after.changes.length = 1 ∧
    after.tree.kind (inode 2) = .removed ∧ after.tree.kind (inode 9) = .directory ∧
    after.tree.Kept plan.leaves (inode 1) "docs".toList (inode 3) :=
  ⟨by decide +kernel,by decide +kernel,by decide +kernel,
    (execute_spares (fun _ => env) true plan world).2 (fun _ => othersGrow) _ _ _ docs_kept⟩

end SampleSpares
end Byssus
