import Byssus.Library.Maps
import Mathlib.Data.Set.Basic
import Mathlib.Logic.Function.Basic

/-! A tree of directories, as the calls that look up, make and remove directories see it.
A lookup does not follow symlinks.  Handles to directories are kept apart from the directories
themselves, as a mount may stand in front of one. -/
namespace DirTree

open Std

/-- What an inode is; a directory that was removed may still be open. -/
inductive Kind
  | free | directory | removed | symlink | other
  deriving DecidableEq

inductive Fault
  | noent | notdir | loop | xdev | exist | nospc | notempty | busy
  deriving DecidableEq

/-- The inodes, and the entries of those that are directories. -/
structure Tree (I N : Type) [Ord N] where
  kind : I → Kind
  entries : I → ExtTreeMap N I

/-- A change of one entry. -/
inductive Change (I N : Type)
  | made (dir : I) (name : N) (fresh : I)
  | removed (dir : I) (name : N) (gone : I)
  deriving DecidableEq

namespace Tree

variable {I N : Type} [Ord N] [TransOrd N]

/-- An entry of a directory. -/
def entry (t : Tree I N) (dir : I) (n : N) : Except Fault I :=
  match t.kind dir with
  | .directory => match (t.entries dir)[n]? with
    | some i => .ok i
    | none => .error .noent
  | .removed => .error .noent
  | .free | .symlink | .other => .error .notdir

/-- An entry that is a directory itself. -/
def lookup (t : Tree I N) (dir : I) (n : N) : Except Fault I :=
  match t.entry dir n with
  | .error e => .error e
  | .ok i => match t.kind i with
    | .directory => .ok i
    | .symlink => .error .loop
    | .free | .removed | .other => .error .notdir

theorem entry_ok_iff {t : Tree I N} {dir i : I} {n : N} :
    t.entry dir n = .ok i ↔ t.kind dir = .directory ∧ (t.entries dir)[n]? = some i := by
  unfold entry
  cases t.kind dir <;> simp
  cases (t.entries dir)[n]? <;> simp

theorem lookup_ok_iff {t : Tree I N} {dir i : I} {n : N} : t.lookup dir n = .ok i ↔
    t.kind dir = .directory ∧ (t.entries dir)[n]? = some i ∧ t.kind i = .directory := by
  unfold lookup
  constructor
  · intro hl
    cases h : t.entry dir n with
    | error e =>
      rw [h] at hl
      cases hl
    | ok j =>
      obtain ⟨hdir,hj⟩ := entry_ok_iff.mp h
      cases hk : t.kind j <;> simp only [h,hk,reduceCtorEq,Except.ok.injEq] at hl
      subst hl
      exact ⟨hdir,hj,hk⟩
  · rintro ⟨hdir,hi,hk⟩
    rw [entry_ok_iff.mpr ⟨hdir,hi⟩]
    simp only [hk]

/-! ### Changes -/

/-- `mkdirat`, which makes `fresh` if this inode is free. -/
def mkdir (t : Tree I N) (dir : I) (n : N) (fresh : I) : Except Fault (Change I N) :=
  match t.kind dir with
  | .directory =>
    if n ∈ t.entries dir then .error .exist
    else if t.kind fresh = .free then .ok (.made dir n fresh)
    else .error .nospc
  | .removed => .error .noent
  | .free | .symlink | .other => .error .notdir

/-- `unlinkat` with `AT_REMOVEDIR`; a directory on which something is mounted is busy. -/
def rmdir (t : Tree I N) (busy : I → Bool) (dir : I) (n : N) : Except Fault (Change I N) :=
  match t.entry dir n with
  | .error e => .error e
  | .ok i => match t.kind i with
    | .directory =>
      if busy i then .error .busy
      else if (t.entries i).isEmpty then .ok (.removed dir n i)
      else .error .notempty
    | .free | .removed | .symlink | .other => .error .notdir

variable {t : Tree I N} {dir fresh i : I} {n : N}

theorem mkdir_ok_iff {c : Change I N} : t.mkdir dir n fresh = .ok c ↔
    t.kind dir = .directory ∧ n ∉ t.entries dir ∧ t.kind fresh = .free ∧
      c = .made dir n fresh := by
  unfold mkdir
  cases t.kind dir <;> simp
  by_cases h : n ∈ t.entries dir <;> by_cases hf : t.kind fresh = .free <;> simp [h,hf,eq_comm]

theorem rmdir_ok {busy : I → Bool} {c : Change I N} (h : t.rmdir busy dir n = .ok c) :
    ∃ i, c = .removed dir n i ∧ t.lookup dir n = .ok i ∧ busy i = false ∧
      (t.entries i).isEmpty = true := by
  unfold rmdir at h
  cases he : t.entry dir n with
  | error e =>
    rw [he] at h
    cases h
  | ok i =>
    obtain ⟨hdir,hi⟩ := entry_ok_iff.mp he
    cases hk : t.kind i <;> simp only [he,hk] at h
    case directory =>
      split_ifs at h with hb hempty
      cases h
      exact ⟨i,rfl,lookup_ok_iff.mpr ⟨hdir,hi,hk⟩,by simpa using hb,hempty⟩
    all_goals cases h

omit [TransOrd N] in
/-- What is new has another inode than what is there, so `dir` is not new. -/
theorem ne_of_kind (hdir : t.kind dir = .directory) (hfresh : t.kind fresh = .free) :
    dir ≠ fresh := by
  rintro rfl
  rw [hfresh] at hdir
  cases hdir

section
variable [LawfulEqOrd N] [DecidableEq I]

/-- A new directory, empty, under a name in `dir`. -/
def addDir (t : Tree I N) (dir : I) (n : N) (fresh : I) : Tree I N where
  kind := Function.update t.kind fresh .directory
  entries := Function.update (Function.update t.entries fresh ∅) dir
    ((t.entries dir).insert n fresh)

/-- The entry is taken away, and the directory it led to is removed. -/
def dropDir (t : Tree I N) (dir : I) (n : N) (gone : I) : Tree I N where
  kind := Function.update t.kind gone .removed
  entries := Function.update t.entries dir ((t.entries dir).erase n)

def apply (t : Tree I N) : Change I N → Tree I N
  | .made dir n fresh => t.addDir dir n fresh
  | .removed dir n gone => t.dropDir dir n gone

/-- Making a directory touches no entry but its own. -/
theorem addDir_entries {j : I} {m : N} (hj : j ≠ fresh) (h : ¬(j = dir ∧ m = n)) :
    ((t.addDir dir n fresh).entries j)[m]? = (t.entries j)[m]? := by
  by_cases hd : j = dir
  · subst hd
    have hm : n ≠ m := fun hm => h ⟨rfl,hm.symm⟩
    simp [addDir,ExtTreeMap.getElem?_insert,LawfulEqCmp.compare_eq_iff_eq,hm]
  · simp [addDir,hd,hj]

/-- Nor does removing one. -/
theorem dropDir_entries {gone j : I} {m : N} (h : ¬(j = dir ∧ m = n)) :
    ((t.dropDir dir n gone).entries j)[m]? = (t.entries j)[m]? := by
  by_cases hd : j = dir
  · subst hd
    have hm : n ≠ m := fun hm => h ⟨rfl,hm.symm⟩
    simp [dropDir,ExtTreeMap.getElem?_erase,LawfulEqCmp.compare_eq_iff_eq,hm]
  · simp [dropDir,hd]

end

/-! ### Trees that grow -/

/-- Every directory is still there, with all its entries. -/
def Extends (t t' : Tree I N) : Prop :=
  ∀ dir : I, t.kind dir = .directory → t'.kind dir = .directory ∧
    ∀ (n : N) (i : I), (t.entries dir)[n]? = some i → (t'.entries dir)[n]? = some i

namespace Extends

variable {t t' u : Tree I N} {dir i : I} {n : N}

theorem refl (t : Tree I N) : t.Extends t := fun _ h => ⟨h,fun _ _ hi => hi⟩

theorem trans (h : t.Extends t') (h' : t'.Extends u) : t.Extends u := by
  intro dir hdir
  obtain ⟨hdir',hentries⟩ := h dir hdir
  obtain ⟨hdir'',hentries'⟩ := h' dir hdir'
  exact ⟨hdir'',fun n i hi => hentries' n i (hentries n i hi)⟩

theorem lookup (h : t.Extends t') (hl : t.lookup dir n = .ok i) : t'.lookup dir n = .ok i := by
  obtain ⟨hdir,hi,hk⟩ := lookup_ok_iff.mp hl
  exact lookup_ok_iff.mpr ⟨(h dir hdir).1,(h dir hdir).2 n i hi,(h i hk).1⟩

theorem addDir [LawfulEqOrd N] [DecidableEq I] {fresh : I} (hdir : t.kind dir = .directory)
    (hn : n ∉ t.entries dir) (hfresh : t.kind fresh = .free) :
    t.Extends (t.addDir dir n fresh) := by
  intro j hj
  have hne := ne_of_kind hj hfresh
  refine ⟨by simp [Tree.addDir,hne,hj],fun m i hi => ?_⟩
  rw [addDir_entries hne]
  · exact hi
  · rintro ⟨rfl,rfl⟩
    rw [ExtTreeMap.mem_iff_isSome_getElem?,hi] at hn
    exact hn rfl

end Extends

/-! ### What stays -/

/-- A tree where nothing is taken away, and what an inode is does not change. -/
structure Grows (t t' : Tree I N) : Prop where
  entries : t.Extends t'
  kind : ∀ i, t.kind i ≠ .free → t'.kind i = t.kind i

/-- An entry that cannot be removed by its name: it is no directory, it is not called one of the
names, or it holds such an entry. -/
inductive Kept (t : Tree I N) (names : Set N) : I → N → I → Prop
  | node {dir i : I} {n : N} (hdir : t.kind dir = .directory) (hi : (t.entries dir)[n]? = some i)
      (hk : t.kind i = .symlink ∨ t.kind i = .other) : Kept t names dir n i
  | named {dir i : I} {n : N} (hdir : t.kind dir = .directory) (hi : (t.entries dir)[n]? = some i)
      (hn : n ∉ names) : Kept t names dir n i
  | holds {dir i j : I} {n m : N} (hdir : t.kind dir = .directory)
      (hi : (t.entries dir)[n]? = some i) (h : Kept t names i m j) : Kept t names dir n i

/-- What was kept is kept. -/
def Stays (names : Set N) (t t' : Tree I N) : Prop :=
  ∀ dir n i, t.Kept names dir n i → t'.Kept names dir n i

section
variable {t t' u : Tree I N} {names : Set N}

theorem Kept.entry {dir i : I} {n : N} (h : t.Kept names dir n i) :
    t.kind dir = .directory ∧ (t.entries dir)[n]? = some i := by
  cases h with
  | node hdir hi _ => exact ⟨hdir,hi⟩
  | named hdir hi _ => exact ⟨hdir,hi⟩
  | holds hdir hi _ => exact ⟨hdir,hi⟩

theorem Stays.refl (t : Tree I N) : Stays names t t := fun _ _ _ h => h

theorem Stays.trans (h : Stays names t t') (h' : Stays names t' u) : Stays names t u :=
  fun dir n i hk => h' dir n i (h dir n i hk)

theorem Grows.stays (h : t.Grows t') : Stays names t t' := by
  intro dir n i hk
  induction hk with
  | node hdir hi hk =>
    refine .node (h.entries _ hdir).1 ((h.entries _ hdir).2 _ _ hi) ?_
    rwa [h.kind _ (by rcases hk with hk | hk <;> simp [hk])]
  | named hdir hi hn => exact .named (h.entries _ hdir).1 ((h.entries _ hdir).2 _ _ hi) hn
  | holds hdir hi _ ih => exact .holds (h.entries _ hdir).1 ((h.entries _ hdir).2 _ _ hi) ih

variable [LawfulEqOrd N] [DecidableEq I]

theorem Grows.addDir {dir fresh : I} {n : N} (hdir : t.kind dir = .directory)
    (hn : n ∉ t.entries dir) (hfresh : t.kind fresh = .free) :
    t.Grows (t.addDir dir n fresh) where
  entries := .addDir hdir hn hfresh
  kind := by
    rintro i hi
    have hne : i ≠ fresh := fun h => hi (h ▸ hfresh)
    simp [Tree.addDir,hne]

/-- An empty directory with one of the names is not kept, nor was anything in it. -/
theorem Stays.dropDir {dir gone : I} {n : N} (hn : n ∈ names)
    (hl : t.lookup dir n = .ok gone) (hempty : (t.entries gone).isEmpty = true) :
    Stays names t (t.dropDir dir n gone) := by
  obtain ⟨-,hgone,hkind⟩ := lookup_ok_iff.mp hl
  have hnone : ∀ (m : N) (j : I), (t.entries gone)[m]? ≠ some j := by
    intro m j hj
    rw [ExtTreeMap.isEmpty_iff] at hempty
    simp [hempty] at hj
  have hstays : ∀ d m i, t.Kept names d m i → ¬(d = dir ∧ m = n) →
      (t.dropDir dir n gone).kind d = .directory ∧
        ((t.dropDir dir n gone).entries d)[m]? = some i := by
    intro d m i hk hne
    obtain ⟨hd,hi⟩ := hk.entry
    have hdg : d ≠ gone := fun h => hnone m i (h ▸ hi)
    exact ⟨by simpa [Tree.dropDir,hdg] using hd,by rwa [dropDir_entries hne]⟩
  intro d m i hk
  induction hk with
  | @node d i m hd hi hk =>
    have hig : i ≠ gone := by
      rintro rfl
      simp [hkind] at hk
    have hne : ¬(d = dir ∧ m = n) := by
      rintro ⟨rfl,rfl⟩
      exact hig (Option.some.inj (hi.symm.trans hgone))
    obtain ⟨hd',hi'⟩ := hstays d m i (.node hd hi hk) hne
    exact .node hd' hi' (by simpa [Tree.dropDir,hig] using hk)
  | @named d i m hd hi hm =>
    obtain ⟨hd',hi'⟩ := hstays d m i (.named hd hi hm) fun h => hm (h.2 ▸ hn)
    exact .named hd' hi' hm
  | @holds d i j m k hd hi hk ih =>
    have hne : ¬(d = dir ∧ m = n) := by
      rintro ⟨rfl,rfl⟩
      have : i = gone := Option.some.inj (hi.symm.trans hgone)
      exact hnone k j (this ▸ hk.entry.2)
    obtain ⟨hd',hi'⟩ := hstays d m i (.holds hd hi hk) hne
    exact .holds hd' hi' ih

end

end Tree

/-! ### Handles -/

/-- Handles to directories: the directory that one shows, and the handle of one in it. -/
structure View (P I : Type) where
  inode : P → I
  enter : P → I → P

namespace View

variable {P I N : Type} [Ord N] [TransOrd N] (v : View P I)

def child (t : Tree I N) (p : P) (n : N) : Except Fault P :=
  (t.lookup (v.inode p) n).map (v.enter p)

/-- One entry after the other. -/
def walk (t : Tree I N) (p : P) (names : List N) : Except Fault P := names.foldlM (v.child t) p

variable {v} {t t' : Tree I N} {p q : P} {n : N} {names : List N}

theorem child_ok_iff : v.child t p n = .ok q ↔
    ∃ i, t.lookup (v.inode p) n = .ok i ∧ v.enter p i = q := by
  unfold child
  cases t.lookup (v.inode p) n <;> simp [Except.map]

theorem walk_concat : v.walk t p (names++[n]) = v.walk t p names >>= fun q => v.child t q n := by
  simp [walk]

theorem child_extends (h : t.Extends t') (hc : v.child t p n = .ok q) :
    v.child t' p n = .ok q := by
  obtain ⟨i,hi,hq⟩ := child_ok_iff.mp hc
  exact child_ok_iff.mpr ⟨i,h.lookup hi,hq⟩

theorem walk_extends (h : t.Extends t') (hw : v.walk t p names = .ok q) :
    v.walk t' p names = .ok q := by
  induction names generalizing p with
  | nil => exact hw
  | cons n names ih =>
    simp only [walk,List.foldlM_cons] at hw ⊢
    cases hc : v.child t p n with
    | error e => rw [hc] at hw; cases hw
    | ok r =>
      rw [hc] at hw
      rw [child_extends h hc]
      exact ih hw

/-- The end of a walk is an entry. -/
theorem walk_reached (hw : v.walk t p names = .ok q) (hne : names ≠ []) :
    ∃ r n, v.child t r n = .ok q := by
  obtain rfl | ⟨above,n,rfl⟩ := names.eq_nil_or_concat'
  · exact absurd rfl hne
  · rw [walk_concat] at hw
    cases hr : v.walk t p above with
    | error e => rw [hr] at hw; cases hw
    | ok r =>
      rw [hr] at hw
      exact ⟨r,n,hw⟩

end View
end DirTree
