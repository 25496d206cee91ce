import Mathlib.Data.List.Sublists
import Mathlib.Data.Set.Insert

/-! A directory of files that may lose power.
What a file holds is on disk once it has been synced, and changes of the directory's entries once
the directory has; before that any of it may be lost.  Entry changes reach the disk in any order
that keeps the order of those of one entry, and a rename reaches it as a whole. -/
namespace CrashFs

/-- The file of each name. -/
abbrev Entries (N : Type) := N → Option ℕ

inductive DirOp (N : Type)
  | link (name : N) (file : ℕ)
  | unlink (name : N)
  | rename (source target : N) (file : ℕ)

/-- What a file holds, and whether it is on disk. -/
structure File (B : Type) where
  content : List B
  synced : Bool

variable {N B : Type} [DecidableEq N]

namespace DirOp

def apply (d : Entries N) : DirOp N → Entries N
  | link name file => Function.update d name (some file)
  | unlink name => Function.update d name none
  | rename source target file =>
    Function.update (Function.update d source none) target (some file)

/-- The file that gets a name. -/
def file : DirOp N → Option ℕ
  | link _ file => some file
  | unlink _ => none
  | rename _ _ file => some file

def names : DirOp N → List N
  | link name _ => [name]
  | unlink name => [name]
  | rename source target _ => [source,target]

theorem apply_of_not_mem {d : Entries N} {op : DirOp N} {n : N} (h : n ∉ op.names) :
    op.apply d n = d n := by
  cases op with
  | link name file => simp_all [apply,names]
  | unlink name => simp_all [apply,names]
  | rename source target file => simp_all [apply,names]

/-- The entries that a change is about do not depend on what they were. -/
theorem apply_of_mem {d d' : Entries N} {op : DirOp N} {n : N} (h : n ∈ op.names) :
    op.apply d n = op.apply d' n := by
  cases op with
  | link name file => simp_all [apply,names]
  | unlink name => simp_all [apply,names]
  | rename source target file =>
    by_cases ht : n = target
    · simp [apply,ht]
    · simp_all [apply,names]

theorem apply_comm {d : Entries N} {op op' : DirOp N} (h : op.names.Disjoint op'.names) :
    op'.apply (op.apply d) = op.apply (op'.apply d) := by
  funext n
  by_cases hn : n ∈ op.names
  · rw [apply_of_not_mem (h hn)]
    exact apply_of_mem hn
  · rw [apply_of_not_mem hn]
    by_cases hn' : n ∈ op'.names
    · exact apply_of_mem hn'
    · simp [apply_of_not_mem,hn,hn']

theorem apply_eq_some {d : Entries N} {op : DirOp N} {n : N} {i : ℕ}
    (h : op.apply d n = some i) : op.file = some i ∨ d n = some i := by
  cases op with
  | link name file =>
    by_cases hn : n = name
    · exact .inl (by simpa [apply,DirOp.file,hn] using h)
    · exact .inr (by simpa [apply,hn] using h)
  | unlink name =>
    by_cases hn : n = name
    · simp [apply,hn] at h
    · exact .inr (by simpa [apply,hn] using h)
  | rename source target file =>
    by_cases ht : n = target
    · exact .inl (by simpa [apply,DirOp.file,ht] using h)
    · by_cases hs : n = source
      · subst hs
        simp [apply,ht] at h
      · exact .inr (by simpa [apply,ht,hs] using h)

end DirOp

/-- Another order of changes; those of one entry keep theirs. -/
inductive Reordered : List (DirOp N) → List (DirOp N) → Prop
  | refl (ops : List (DirOp N)) : Reordered ops ops
  | swap {ops before after : List (DirOp N)} {op op' : DirOp N}
      (h : op.names.Disjoint op'.names) (hops : Reordered ops (before++op::op'::after)) :
      Reordered ops (before++op'::op::after)

/-- The entries come out the same. -/
theorem Reordered.foldl_apply {ops ops' : List (DirOp N)} (h : Reordered ops ops')
    (d : Entries N) : ops'.foldl DirOp.apply d = ops.foldl DirOp.apply d := by
  induction h with
  | refl => rfl
  | swap hdis _ ih => simpa [DirOp.apply_comm hdis] using ih

structure Fs (N B : Type) [DecidableEq N] where
  /-- The entries on disk. -/
  base : Entries N
  /-- The changes of entries that may not have reached the disk, in their order. -/
  pending : List (DirOp N)
  files : ℕ → File B
  /-- No file from here on has been made yet. -/
  fresh : ℕ
  base_lt : ∀ n i, base n = some i → i < fresh
  pending_lt : ∀ op ∈ pending, ∀ i, op.file = some i → i < fresh

namespace Fs

/-- The entries as they are seen while the power is on. -/
def dir (fs : Fs N B) : Entries N := fs.pending.foldl DirOp.apply fs.base

/-- The entries that the disk may hold: some of the pending changes have reached it. -/
def Landing (fs : Fs N B) (d : Entries N) : Prop :=
  ∃ ops landed : List (DirOp N), ops.Sublist fs.pending ∧ Reordered ops landed ∧
    d = landed.foldl DirOp.apply fs.base

def read (fs : Fs N B) (n : N) : Option (List B) := (fs.dir n).map fun i => (fs.files i).content

/-- Their order makes no difference. -/
theorem landing_iff {fs : Fs N B} {d : Entries N} :
    fs.Landing d ↔ ∃ ops, List.Sublist ops fs.pending ∧ d = ops.foldl DirOp.apply fs.base := by
  constructor
  · rintro ⟨ops,landed,hsub,hord,rfl⟩
    exact ⟨ops,hsub,hord.foldl_apply fs.base⟩
  · rintro ⟨ops,hsub,rfl⟩
    exact ⟨ops,ops,hsub,.refl ops,rfl⟩

theorem dir_landing (fs : Fs N B) : fs.Landing fs.dir :=
  landing_iff.mpr ⟨fs.pending,List.Sublist.refl _,rfl⟩

theorem landing_of_pending_nil {fs : Fs N B} {d : Entries N} (h : fs.pending = []) :
    fs.Landing d ↔ d = fs.base := by
  simp [landing_iff,h]

theorem dir_of_pending_nil {fs : Fs N B} (h : fs.pending = []) : fs.dir = fs.base := by
  simp [dir,h]

theorem foldl_apply_lt (fs : Fs N B) {ops : List (DirOp N)} (hops : ∀ op ∈ ops, op ∈ fs.pending)
    {n : N} {i : ℕ} (h : ops.foldl DirOp.apply fs.base n = some i) : i < fs.fresh := by
  induction ops using List.reverseRecOn with
  | nil => exact fs.base_lt n i h
  | append_singleton ops op ih =>
    rw [List.foldl_append] at h
    rcases DirOp.apply_eq_some h with h | h
    · exact fs.pending_lt op (hops op (by simp)) i h
    · exact ih (fun o ho => hops o (by simp [ho])) h

/-- Every name is one of a file that has been made. -/
theorem Landing.lt {fs : Fs N B} {d : Entries N} (h : fs.Landing d) {n : N} {i : ℕ}
    (hi : d n = some i) : i < fs.fresh := by
  obtain ⟨ops,hsub,rfl⟩ := landing_iff.mp h
  exact fs.foldl_apply_lt (fun op hop => hsub.subset hop) hi

/-! ### Operations -/

/-- A change of entries, known in memory only. -/
def change (fs : Fs N B) (op : DirOp N) (h : ∀ i, op.file = some i → i < fs.fresh) : Fs N B where
  base := fs.base
  pending := fs.pending++[op]
  files := fs.files
  fresh := fs.fresh
  base_lt := fs.base_lt
  pending_lt := by
    intro o ho
    rcases List.mem_append.mp ho with ho | ho
    · exact fs.pending_lt o ho
    · rw [List.mem_singleton.mp ho]
      exact h

def setFile (fs : Fs N B) (i : ℕ) (file : File B) : Fs N B :=
  {fs with files := Function.update fs.files i file}

/-- A new empty file, which has no name yet. -/
def alloc (fs : Fs N B) : Fs N B where
  base := fs.base
  pending := fs.pending
  files := Function.update fs.files fs.fresh ⟨[],false⟩
  fresh := fs.fresh+1
  base_lt := fun n i h => Nat.lt_succ_of_lt (fs.base_lt n i h)
  pending_lt := fun op hop i h => Nat.lt_succ_of_lt (fs.pending_lt op hop i h)

def create (fs : Fs N B) (n : N) : Fs N B :=
  fs.alloc.change (.link n fs.fresh) (by
    intro i hi
    cases hi
    exact Nat.lt_succ_self _)

/-- `open` with `O_CREAT` and `O_TRUNC`: the file, emptied or made. -/
def openTrunc (fs : Fs N B) (n : N) : ℕ × Fs N B :=
  match fs.dir n with
  | some i => (i,fs.setFile i ⟨[],false⟩)
  | none => (fs.fresh,fs.create n)

def write (fs : Fs N B) (i : ℕ) (bytes : List B) : Fs N B :=
  fs.setFile i ⟨(fs.files i).content++bytes,false⟩

/-- `fsync` of a file. -/
def syncFile (fs : Fs N B) (i : ℕ) : Fs N B := fs.setFile i ⟨(fs.files i).content,true⟩

/-- There is none to rename where the source does not exist. -/
def rename (fs : Fs N B) (source target : N) : Option (Fs N B) :=
  match h : fs.dir source with
  | some i => some (fs.change (.rename source target i) (by
      intro j hj
      cases hj
      exact fs.dir_landing.lt h))
  | none => none

/-- There is none to unlink where the name does not exist. -/
def unlink (fs : Fs N B) (n : N) : Option (Fs N B) :=
  if (fs.dir n).isSome then some (fs.change (.unlink n) (by
    intro j hj
    cases hj))
  else none

/-- `fsync` of the directory. -/
def syncDir (fs : Fs N B) : Fs N B where
  base := fs.dir
  pending := []
  files := fs.files
  fresh := fs.fresh
  base_lt := fun _ _ h => fs.dir_landing.lt h
  pending_lt := by simp

/-- Power is lost and comes back: some of the pending changes have reached the disk, and files that
were not synced hold anything. -/
def Crashes (fs fs' : Fs N B) : Prop :=
  fs.Landing fs'.base ∧ fs'.pending = [] ∧ fs'.fresh = fs.fresh ∧
    ∀ i, (fs'.files i).synced = true ∧ ((fs.files i).synced = true → fs'.files i = fs.files i)

variable {fs : Fs N B} {d : Entries N} {op : DirOp N} {i : ℕ} {n : N}

@[simp] theorem dir_change (h) : (fs.change op h).dir = op.apply fs.dir := by
  simp [dir,change]
@[simp] theorem files_change (h) : (fs.change op h).files = fs.files := rfl
@[simp] theorem dir_setFile (file : File B) : (fs.setFile i file).dir = fs.dir := rfl
@[simp] theorem dir_alloc : fs.alloc.dir = fs.dir := rfl
@[simp] theorem dir_syncDir : fs.syncDir.dir = fs.dir := rfl
@[simp] theorem landing_setFile (file : File B) :
    (fs.setFile i file).Landing d ↔ fs.Landing d := Iff.rfl
@[simp] theorem landing_alloc : fs.alloc.Landing d ↔ fs.Landing d := Iff.rfl
@[simp] theorem landing_syncDir : fs.syncDir.Landing d ↔ d = fs.dir := landing_of_pending_nil rfl

/-- A change has reached the disk or has not. -/
@[simp] theorem landing_change (h) :
    (fs.change op h).Landing d ↔ fs.Landing d ∨ ∃ d', fs.Landing d' ∧ d = op.apply d' := by
  constructor
  · intro hd
    obtain ⟨ops,hsub,rfl⟩ := landing_iff.mp hd
    obtain ⟨earlier,last,rfl,hearlier,hlast⟩ := List.sublist_append_iff.mp hsub
    rcases List.sublist_singleton.mp hlast with rfl | rfl
    · exact .inl (landing_iff.mpr ⟨earlier,hearlier,by simp [change]⟩)
    · exact .inr ⟨_,landing_iff.mpr ⟨earlier,hearlier,rfl⟩,by simp [change]⟩
  · rintro (hd | ⟨d',hd,rfl⟩)
    · obtain ⟨ops,hsub,rfl⟩ := landing_iff.mp hd
      exact landing_iff.mpr ⟨ops,hsub.trans (List.sublist_append_left ..),rfl⟩
    · obtain ⟨ops,hsub,rfl⟩ := landing_iff.mp hd
      exact landing_iff.mpr ⟨ops++[op],hsub.append (List.Sublist.refl _),by simp [change]⟩

end Fs

/-! ### Replacing a file

A file `target` is replaced by writing a file `tmp` and renaming it. -/

/-- What there is of a file while the power is on, and all that may be left of it without. -/
structure Durable (B : Type) where
  now : Option (List B)
  after : Set (Option (List B))

namespace Durable

def replace (bytes : List B) (t : Durable B) : Durable B where
  now := some bytes
  after := insert (some bytes) t.after

def flush (t : Durable B) : Durable B := ⟨t.now,{t.now}⟩

end Durable

namespace Fs

variable {fs : Fs N B} {d : Entries N} {op : DirOp N} {i : ℕ} {n : N}

/-- What entries give as the content of a name. -/
def readIn (fs : Fs N B) (d : Entries N) (n : N) : Option (List B) :=
  (d n).map fun i => (fs.files i).content

def durable (fs : Fs N B) (n : N) : Durable B where
  now := fs.read n
  after := {r | ∃ d, fs.Landing d ∧ r = fs.readIn d n}

/-- Whatever lands, the target is a file on disk that is not the one to be written next. -/
def Guarded (fs : Fs N B) (target tmp : N) : Prop :=
  ∀ d, fs.Landing d → ∀ i, d target = some i →
    (fs.files i).synced = true ∧ d tmp ≠ some i ∧ fs.dir tmp ≠ some i

variable {target tmp : N}

theorem now_mem (fs : Fs N B) (n : N) : (fs.durable n).now ∈ (fs.durable n).after :=
  ⟨fs.dir,fs.dir_landing,rfl⟩

theorem durable_eq {fs fs' : Fs N B}
    (hnow : fs'.read target = fs.read target)
    (hafter : ∀ r, (∃ d, fs'.Landing d ∧ r = fs'.readIn d target) ↔
      ∃ d, fs.Landing d ∧ r = fs.readIn d target) :
    fs'.durable target = fs.durable target := by
  simp only [durable,Durable.mk.injEq]
  exact ⟨hnow,Set.ext hafter⟩

/-- With nothing pending there is nothing to lose. -/
theorem durable_of_pending_nil (h : fs.pending = []) (n : N) :
    fs.durable n = ⟨fs.read n,{fs.read n}⟩ := by
  simp only [durable,Durable.mk.injEq,true_and]
  ext r
  simp only [landing_of_pending_nil h,exists_eq_left,Set.mem_ofPred_eq,Set.mem_singleton_iff]
  rw [read,dir_of_pending_nil h]
  rfl

/-- Another file than the target changes. -/
theorem durable_setFile {file : File B}
    (h : ∀ d, fs.Landing d → d target ≠ some i) :
    (fs.setFile i file).durable target = fs.durable target := by
  have hread : ∀ d, fs.Landing d → (fs.setFile i file).readIn d target = fs.readIn d target := by
    intro d hd
    cases ht : d target with
    | none => simp [readIn,ht]
    | some j =>
      have hj : j ≠ i := fun hj => h d hd (hj ▸ ht)
      simp [readIn,ht,setFile,hj]
  apply durable_eq
  · exact hread fs.dir fs.dir_landing
  · intro r
    constructor
    · rintro ⟨d,hd,rfl⟩
      exact ⟨d,hd,hread d hd⟩
    · rintro ⟨d,hd,rfl⟩
      exact ⟨d,hd,(hread d hd).symm⟩

theorem Guarded.setFile (hg : fs.Guarded target tmp) (hi : fs.dir tmp = some i) (file : File B) :
    (fs.setFile i file).Guarded target tmp ∧
      (fs.setFile i file).durable target = fs.durable target := by
  have hne : ∀ d, fs.Landing d → d target ≠ some i := fun d hd ht => (hg d hd i ht).2.2 hi
  constructor
  · intro d hd j ht
    have hj : j ≠ i := fun hj => hne d hd (hj ▸ ht)
    have h := hg d hd j ht
    exact ⟨by simpa [Fs.setFile,hj] using h.1,h.2⟩
  · exact durable_setFile hne

theorem Guarded.alloc (hg : fs.Guarded target tmp) :
    fs.alloc.Guarded target tmp ∧ fs.alloc.durable target = fs.durable target := by
  have hne : ∀ d, fs.Landing d → d target ≠ some fs.fresh := fun d hd ht =>
    Nat.lt_irrefl _ (hd.lt ht)
  constructor
  · intro d hd j ht
    have hj : j ≠ fs.fresh := fun hj => hne d hd (hj ▸ ht)
    have h := hg d hd j ht
    exact ⟨by simpa [Fs.alloc,hj] using h.1,h.2⟩
  · exact durable_setFile hne

/-- The name `tmp` changes to one of a file that is not the target. -/
theorem Guarded.change (hg : fs.Guarded target tmp) (h)
    (htarget : target ∉ op.names) (htmp : tmp ∈ op.names)
    (hfile : ∀ d, fs.Landing d → d target ≠ none → op.apply fs.dir tmp ≠ d target) :
    (fs.change op h).Guarded target tmp ∧
      (fs.change op h).durable target = fs.durable target := by
  have hsame : ∀ d, op.apply d target = d target := fun d => DirOp.apply_of_not_mem htarget
  have hnew : ∀ d i, fs.Landing d → d target = some i →
      ∀ d', op.apply d' tmp ≠ some i := by
    intro d i hd ht d' heq
    rw [DirOp.apply_of_mem htmp] at heq
    exact hfile d hd (by simp [ht]) (heq.trans ht.symm)
  constructor
  · intro d hd i ht
    rw [landing_change] at hd
    rcases hd with hd | ⟨d',hd,rfl⟩
    · exact ⟨(hg d hd i ht).1,(hg d hd i ht).2.1,by
        rw [dir_change]
        exact hnew d i hd ht _⟩
    · rw [hsame] at ht
      exact ⟨(hg d' hd i ht).1,hnew d' i hd ht _,by
        rw [dir_change]
        exact hnew d' i hd ht _⟩
  · apply durable_eq
    · simp [read,hsame]
    · intro r
      constructor
      · rintro ⟨d,hd,rfl⟩
        rw [landing_change] at hd
        rcases hd with hd | ⟨d',hd,rfl⟩
        · exact ⟨d,hd,rfl⟩
        · exact ⟨d',hd,by simp [readIn,hsame]⟩
      · rintro ⟨d,hd,rfl⟩
        exact ⟨d,(landing_change h).mpr (.inl hd),rfl⟩

theorem Guarded.openTrunc (hg : fs.Guarded target tmp) (hne : target ≠ tmp) :
    (fs.openTrunc tmp).2.Guarded target tmp ∧
      (fs.openTrunc tmp).2.durable target = fs.durable target ∧
      (fs.openTrunc tmp).2.dir tmp = some (fs.openTrunc tmp).1 ∧
      ((fs.openTrunc tmp).2.files (fs.openTrunc tmp).1).content = [] := by
  unfold Fs.openTrunc
  cases htmp : fs.dir tmp with
  | some i =>
    obtain ⟨hg',hd⟩ := hg.setFile htmp ⟨[],false⟩
    exact ⟨hg',hd,htmp,by simp [Fs.setFile]⟩
  | none =>
    obtain ⟨hga,hda⟩ := hg.alloc
    have hlt : ∀ i, (DirOp.link tmp fs.fresh).file = some i → i < fs.alloc.fresh := by
      intro i hi
      cases hi
      exact Nat.lt_succ_self _
    have hc := hga.change hlt (by simp [DirOp.names,hne]) (by simp [DirOp.names]) (by
      intro d hd _ heq
      have hd : fs.Landing d := hd
      exact Nat.lt_irrefl _ (hd.lt (heq.symm.trans (by simp [DirOp.apply]))))
    exact ⟨hc.1,hc.2.trans hda,by simp [create,DirOp.apply],by simp [create,Fs.change,Fs.alloc]⟩

theorem Guarded.write (hg : fs.Guarded target tmp) (hi : fs.dir tmp = some i) (bytes : List B) :
    (fs.write i bytes).Guarded target tmp ∧
      (fs.write i bytes).durable target = fs.durable target := hg.setFile hi _

theorem Guarded.syncFile (hg : fs.Guarded target tmp) (hi : fs.dir tmp = some i) :
    (fs.syncFile i).Guarded target tmp ∧
      (fs.syncFile i).durable target = fs.durable target := hg.setFile hi _

theorem Guarded.unlink {fs' : Fs N B} (hg : fs.Guarded target tmp) (hne : target ≠ tmp)
    (h : fs.unlink tmp = some fs') :
    fs'.Guarded target tmp ∧ fs'.durable target = fs.durable target := by
  unfold Fs.unlink at h
  split at h
  · cases h
    exact hg.change _ (by simp [DirOp.names,hne]) (by simp [DirOp.names]) (by
      intro d _ hsome heq
      exact hsome (heq.symm.trans (by simp [DirOp.apply])))
  · cases h

/-- The new content is on disk before the rename. -/
theorem Guarded.rename (hg : fs.Guarded target tmp) (hne : target ≠ tmp)
    (hi : fs.dir tmp = some i) (hsynced : (fs.files i).synced = true) :
    ∃ fs', fs.rename tmp target = some fs' ∧ fs'.Guarded target tmp ∧
      fs'.durable target = (fs.durable target).replace (fs.files i).content := by
  have htarget : ∀ d, (DirOp.rename tmp target i).apply d target = some i := by
    simp [DirOp.apply]
  have htmp : ∀ d, (DirOp.rename tmp target i).apply d tmp = none := by
    simp [DirOp.apply,Ne.symm hne]
  have hlt : ∀ j, (DirOp.rename tmp target i).file = some j → j < fs.fresh := by
    intro j hj
    cases hj
    exact fs.dir_landing.lt hi
  refine ⟨fs.change (.rename tmp target i) hlt,?_,?_,?_⟩
  · unfold Fs.rename
    split
    · rename_i j hj
      cases hj.symm.trans hi
      rfl
    · rename_i hnone
      simp [hnone] at hi
  · intro d hd j ht
    have hdir : (fs.change (.rename tmp target i) hlt).dir tmp ≠ some j := by
      simp [htmp]
    rw [landing_change] at hd
    rcases hd with hd | ⟨d',hd,rfl⟩
    · exact ⟨(hg d hd j ht).1,(hg d hd j ht).2.1,hdir⟩
    · rw [htarget] at ht
      cases ht
      exact ⟨hsynced,by simp [htmp],hdir⟩
  · simp only [durable,Durable.replace,Durable.mk.injEq]
    constructor
    · simp [read,htarget]
    · ext r
      simp only [Set.mem_ofPred_eq,Set.mem_insert_iff,landing_change]
      constructor
      · rintro ⟨d,hd | ⟨d',_,rfl⟩,rfl⟩
        · exact .inr ⟨d,hd,rfl⟩
        · exact .inl (by simp [readIn,htarget])
      · rintro (rfl | ⟨d,hd,rfl⟩)
        · exact ⟨_,.inr ⟨fs.dir,fs.dir_landing,rfl⟩,by simp [readIn,htarget]⟩
        · exact ⟨d,.inl hd,rfl⟩

/-- Only what is there now is left. -/
theorem Guarded.syncDir (hg : fs.Guarded target tmp) :
    fs.syncDir.Guarded target tmp ∧ fs.syncDir.durable target = (fs.durable target).flush := by
  constructor
  · intro d hd i ht
    rw [landing_syncDir] at hd
    subst hd
    exact hg fs.dir fs.dir_landing i ht
  · simp only [durable,Durable.flush,Durable.mk.injEq]
    constructor
    · rfl
    · ext r
      simp only [landing_syncDir,exists_eq_left,Set.mem_ofPred_eq,Set.mem_singleton_iff]
      rfl

/-- After a power loss the target is what one of the entries left of it, for good. -/
theorem Guarded.crashes {fs' : Fs N B} (hg : fs.Guarded target tmp) (h : Crashes fs fs') :
    fs'.Guarded target tmp ∧
      ∃ r ∈ (fs.durable target).after, fs'.durable target = ⟨r,{r}⟩ := by
  obtain ⟨hbase,hpending,_,hfiles⟩ := h
  have hread : fs'.read target = fs.readIn fs'.base target := by
    rw [read,readIn,dir_of_pending_nil hpending]
    cases ht : fs'.base target with
    | none => rfl
    | some i => simp [(hfiles i).2 (hg _ hbase i ht).1]
  refine ⟨?_,fs.readIn fs'.base target,⟨fs'.base,hbase,rfl⟩,?_⟩
  · intro d hd i ht
    rw [landing_of_pending_nil hpending] at hd
    subst hd
    have h := hg _ hbase i ht
    rw [dir_of_pending_nil hpending]
    exact ⟨(hfiles i).1,h.2.1,h.2.1⟩
  · rw [durable_of_pending_nil hpending,hread]

end Fs
end CrashFs
