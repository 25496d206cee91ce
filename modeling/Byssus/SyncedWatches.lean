import Byssus.LostGroups

/-! The watches of set groups and of intermediate directories.
A descriptor that a directory uses is not released, and one that none uses has no label. -/
namespace Byssus

open Std

variable {H K : Type}

/-- What is assumed of inotify.  A descriptor stays with the inode that it was handed out for, and
is not handed out again after it was removed.  The configured directories, which are added with
links followed, share no inode with the directories of sets. -/
structure Inotify (sys : InotifySys K) where
  Inode : Type
  inode : K → ℕ → Option Inode
  removed : K → Set ℕ
  configured : Inode → Prop
  addWatch_ok : ∀ {path : AbsPath} {nofollow : Bool} {k k' : K} {wd : ℕ},
    sys.addWatch path nofollow k = (.ok wd,k') → ∃ j,
      (inode k wd = none ∨ inode k wd = some j) ∧ inode k' = Function.update (inode k) wd (some j) ∧
      wd ∉ removed k ∧ removed k' = removed k ∧ (configured j ↔ nofollow = false)
  addWatch_error : ∀ {path : AbsPath} {nofollow : Bool} {k k' : K} {e : Errno},
    sys.addWatch path nofollow k = (.error e,k') → inode k' = inode k ∧ removed k' = removed k
  removeWatch : ∀ (wd : ℕ) (k : K), inode (sys.removeWatch wd k) = inode k ∧
    ∀ wd', wd' ∈ removed (sys.removeWatch wd k) ↔
      wd' ∈ removed k ∨ wd' = wd ∧ (inode k wd).isSome = true

namespace Watcher

variable {sys : InotifySys K} (i : Inotify sys)

/-- The labels are right: those of configured directories are on their inodes, and every label
of a set is on the descriptor of some directory. -/
structure Sound (acc : Watcher × K) : Prop where
  configured : ∀ (wd : ℕ) (what : Watched), acc.1.watches[wd]? = some what →
    what.inSet = false → ∃ j, i.inode acc.2 wd = some j ∧ i.configured j
  used : ∀ (wd : ℕ) (what : Watched), acc.1.watches[wd]? = some what → what.inSet = true →
    ∃ id : GroupId, acc.1.setGroups[id]? = some wd

/-- The directory has the descriptor, which no release removed. -/
structure Recorded (id : GroupId) (wd : ℕ) (acc : Watcher × K) : Prop where
  recorded : acc.1.setGroups[id]? = some wd
  kept : wd ∉ i.removed acc.2

/-- Events of the descriptor are changes of the set. -/
structure Held (id : GroupId) (wd : ℕ) (acc : Watcher × K) : Prop extends Recorded i id wd acc where
  labelled : ∃ what, acc.1.watches[wd]? = some what ∧ what.inSet = true

/-! ### Releases -/

/-- What a release does: nothing, where the descriptor is in use or has no label of a set. -/
theorem release_cases (sys : InotifySys K) (old : ℕ) (acc : Watcher × K) :
    (release sys old acc = acc ∧ (old ∈ Maps.values acc.1.setGroups ∨
      ∀ what, acc.1.watches[old]? = some what → what.inSet = false)) ∨
    (old ∉ Maps.values acc.1.setGroups ∧ release sys old acc =
      ({acc.1 with watches := acc.1.watches.erase old},sys.removeWatch old acc.2)) := by
  simp only [release]
  split_ifs with hused hset
  · exact .inl ⟨rfl,.inl hused⟩
  · exact .inr ⟨hused,rfl⟩
  · refine .inl ⟨rfl,.inr fun what hwhat => ?_⟩
    simpa [hwhat] using hset

theorem release_setGroups (old : ℕ) (acc : Watcher × K) :
    (release sys old acc).1.setGroups = acc.1.setGroups := by
  obtain ⟨h,-⟩ | ⟨-,h⟩ := release_cases sys old acc <;> rw [h]

theorem release_inode (old : ℕ) (acc : Watcher × K) :
    i.inode (release sys old acc).2 = i.inode acc.2 := by
  obtain ⟨h,-⟩ | ⟨-,h⟩ := release_cases sys old acc <;> rw [h]
  exact (i.removeWatch old acc.2).1

theorem Recorded.release {id : GroupId} {wd : ℕ} {acc : Watcher × K} (h : Recorded i id wd acc)
    (old : ℕ) : Recorded i id wd (release sys old acc) := by
  refine ⟨by rw [release_setGroups]; exact h.recorded,?_⟩
  obtain ⟨heq,-⟩ | ⟨hfree,heq⟩ := release_cases sys old acc <;> rw [heq]
  · exact h.kept
  · intro hmem
    obtain hmem | ⟨rfl,-⟩ := ((i.removeWatch old acc.2).2 wd).mp hmem
    · exact h.kept hmem
    · exact hfree (Maps.mem_values.mpr ⟨id,h.recorded⟩)

theorem Held.release {id : GroupId} {wd : ℕ} {acc : Watcher × K} (h : Held i id wd acc)
    (old : ℕ) : Held i id wd (release sys old acc) := by
  refine ⟨h.toRecorded.release i old,?_⟩
  obtain ⟨heq,-⟩ | ⟨hfree,heq⟩ := release_cases sys old acc <;> rw [heq]
  · exact h.labelled
  · have hne : old ≠ wd := by
      rintro rfl
      exact hfree (Maps.mem_values.mpr ⟨id,h.recorded⟩)
    simpa [ExtTreeMap.getElem?_erase,hne] using h.labelled

/-- A release makes the labels right that are right but for the one it is about. -/
theorem release_sound {w : Watcher} {k : K} (old : ℕ)
    (hconfigured : ∀ (wd : ℕ) (what : Watched), w.watches[wd]? = some what →
      what.inSet = false → ∃ j, i.inode k wd = some j ∧ i.configured j)
    (hused : ∀ (wd : ℕ) (what : Watched), w.watches[wd]? = some what → what.inSet = true →
      wd ≠ old → ∃ id : GroupId, w.setGroups[id]? = some wd) :
    Sound i (release sys old (w,k)) := by
  obtain ⟨heq,hcase⟩ | ⟨hfree,heq⟩ := release_cases sys old (w,k) <;> rw [heq]
  · refine ⟨hconfigured,fun wd what hwd hset => ?_⟩
    by_cases hold : wd = old
    · subst hold
      rcases hcase with hvalue | hlabel
      · exact Maps.mem_values.mp hvalue
      · rw [hlabel what hwd] at hset
        cases hset
    · exact hused wd what hwd hset hold
  · have herase : ∀ (wd : ℕ) (what : Watched), (w.watches.erase old)[wd]? = some what →
        w.watches[wd]? = some what ∧ wd ≠ old := by
      intro wd what h
      rw [ExtTreeMap.getElem?_erase] at h
      split at h
      · cases h
      · rename_i hne
        exact ⟨h,fun h => hne (by rw [h]; exact ReflCmp.compare_self)⟩
    refine ⟨fun wd what h hset => ?_,fun wd what h hset => ?_⟩
    · rw [(i.removeWatch old k).1]
      exact hconfigured wd what (herase wd what h).1 hset
    · exact hused wd what (herase wd what h).1 hset (herase wd what h).2

/-! ### The steps of `sync` -/

/-- The labels stay right, and the other directories keep what they have. -/
structure Keeps (id : GroupId) (acc acc' : Watcher × K) : Prop where
  sound : Sound i acc → Sound i acc'
  held : ∀ id' wd, id' ≠ id → Held i id' wd acc → Held i id' wd acc'
  setGroups : ∀ id' : GroupId, id' ≠ id → acc'.1.setGroups[id']? = acc.1.setGroups[id']?

variable {i}

theorem Keeps.trans {id : GroupId} {acc acc' acc'' : Watcher × K} (h : Keeps i id acc acc')
    (h' : Keeps i id acc' acc'') : Keeps i id acc acc'' where
  sound := fun hs => h'.sound (h.sound hs)
  held := fun id' wd hne hh => h'.held id' wd hne (h.held id' wd hne hh)
  setGroups := fun id' hne => (h'.setGroups id' hne).trans (h.setGroups id' hne)

variable (i)

/-- Another table for one directory, whose former descriptor is then released. -/
theorem keeps_release {id : GroupId} {w : Watcher} {old : ℕ} {m : ExtTreeMap GroupId ℕ} (k : K)
    (hold : w.setGroups[id]? = some old)
    (hm : ∀ id' : GroupId, id' ≠ id → m[id']? = w.setGroups[id']?) :
    Keeps i id (w,k) (release sys old ({w with setGroups := m},k)) where
  sound := by
    intro h
    refine release_sound i old h.configured fun wd what hwd hset hne => ?_
    obtain ⟨id',hid⟩ := h.used wd what hwd hset
    have hother : id' ≠ id := by
      rintro rfl
      exact hne (Option.some.inj (hid.symm.trans hold))
    exact ⟨id',(hm id' hother).trans hid⟩
  held := by
    intro id' wd hne h
    have hmap : Held i id' wd ({w with setGroups := m},k) :=
      ⟨⟨(hm id' hne).trans h.recorded,h.kept⟩,h.labelled⟩
    exact hmap.release i old
  setGroups := by
    intro id' hne
    rw [release_setGroups]
    exact hm id' hne

theorem forget_keeps (id : GroupId) (acc : Watcher × K) : Keeps i id acc (forget sys id acc) := by
  obtain ⟨w,k⟩ := acc
  simp only [forget]
  cases hid : w.setGroups[id]? with
  | none => exact ⟨fun h => h,fun _ _ _ h => h,fun _ _ => rfl⟩
  | some old =>
    exact keeps_release i k hid fun id' hne => by simp [ExtTreeMap.getElem?_erase,hne.symm]

theorem forget_self (id : GroupId) (acc : Watcher × K) :
    (forget sys id acc).1.setGroups[id]? = none := by
  obtain ⟨w,k⟩ := acc
  simp only [forget]
  cases hid : w.setGroups[id]? with
  | none => exact hid
  | some old => simp [release_setGroups]

/-- What a replacement does: the directory gets the descriptor, and another one that it had is
released. -/
theorem replace_cases (sys : InotifySys K) (id : GroupId) (wd : ℕ) (w : Watcher) (k : K) :
    ((∀ old, w.setGroups[id]? = some old → old = wd) ∧
      replace sys id wd (w,k) = ({w with setGroups := w.setGroups.insert id wd},k)) ∨
    ∃ old, w.setGroups[id]? = some old ∧
      replace sys id wd (w,k) = release sys old ({w with setGroups := w.setGroups.insert id wd},k)
    := by
  simp only [replace]
  cases hid : w.setGroups[id]? with
  | none =>
    refine .inl ⟨?_,rfl⟩
    intro old h
    cases h
  | some old =>
    by_cases hold : old = wd
    · refine .inl ⟨fun old' h => (Option.some.inj h).symm.trans hold,?_⟩
      simp only [hold,ne_eq,not_true_eq_false,if_false]
    · refine .inr ⟨old,rfl,?_⟩
      simp only [ne_eq,hold,not_false_eq_true,if_true]

theorem replace_keeps (id : GroupId) (wd : ℕ) (acc : Watcher × K) :
    Keeps i id acc (replace sys id wd acc) := by
  obtain ⟨w,k⟩ := acc
  have hm : ∀ id' : GroupId, id' ≠ id → (w.setGroups.insert id wd)[id']? = w.setGroups[id']? :=
    fun id' hne => by simp [ExtTreeMap.getElem?_insert,hne.symm]
  obtain ⟨hsame,heq⟩ | ⟨old,hold,heq⟩ := replace_cases sys id wd w k <;> rw [heq]
  · refine ⟨fun h => ⟨h.configured,fun wd' what hwd hset => ?_⟩,fun id' wd' hne h => ?_,hm⟩
    · obtain ⟨id',hid⟩ := h.used wd' what hwd hset
      by_cases hne : id' = id
      · subst hne
        exact ⟨id',by simp [hsame wd' hid]⟩
      · exact ⟨id',(hm id' hne).trans hid⟩
    · exact ⟨⟨(hm id' hne).trans h.recorded,h.kept⟩,h.labelled⟩
  · exact keeps_release i k hold hm

/-- The directory has the descriptor, and the inodes are as they were. -/
theorem replace_recorded (id : GroupId) {wd : ℕ} (w : Watcher) {k : K} (hwd : wd ∉ i.removed k) :
    Recorded i id wd (replace sys id wd (w,k)) ∧
      i.inode (replace sys id wd (w,k)).2 = i.inode k := by
  have hinsert : Recorded i id wd ({w with setGroups := w.setGroups.insert id wd},k) :=
    ⟨by simp,hwd⟩
  obtain ⟨-,heq⟩ | ⟨old,-,heq⟩ := replace_cases sys id wd w k <;> rw [heq]
  · exact ⟨hinsert,rfl⟩
  · exact ⟨hinsert.release i old,release_inode i old _⟩

/-- A directory of a set that has the descriptor may be its label. -/
theorem label_keeps {id : GroupId} {wd : ℕ} {w : Watcher} {k : K} (hset : id.set.isSome = true)
    (hid : w.setGroups[id]? = some wd) : Keeps i id (w,k) (label wd (.group id) w,k) := by
  unfold label
  split
  · exact ⟨fun h => h,fun _ _ _ h => h,fun _ _ => rfl⟩
  · rename_i hno
    have hget : ∀ (wd' : ℕ) (what : Watched), (w.watches.insert wd (.group id))[wd']? = some what →
        w.watches[wd']? = some what ∨ wd' = wd ∧ what = .group id := by
      intro wd' what h
      by_cases hwd : wd' = wd
      · subst hwd
        rw [ExtTreeMap.getElem?_insert_self] at h
        exact .inr ⟨rfl,(Option.some.inj h).symm⟩
      · rw [ExtTreeMap.getElem?_insert,if_neg (by simpa using Ne.symm hwd)] at h
        exact .inl h
    refine ⟨fun h => ⟨fun wd' what hwd hin => ?_,fun wd' what hwd hin => ?_⟩,?_,fun _ _ => rfl⟩
    · obtain hwd | ⟨-,rfl⟩ := hget wd' what hwd
      · exact h.configured wd' what hwd hin
      · simp [Watched.inSet,Option.isSome_iff_ne_none.mp hset] at hin
    · obtain hwd | ⟨rfl,rfl⟩ := hget wd' what hwd
      · exact h.used wd' what hwd hin
      · exact ⟨id,hid⟩
    · intro id' wd' hne h
      obtain ⟨what,hwhat,hin⟩ := h.labelled
      refine ⟨⟨h.recorded,h.kept⟩,what,?_,hin⟩
      have hwd : ¬wd = wd' := by
        rintro rfl
        exact hno (ExtTreeMap.mem_iff_isSome_getElem?.mpr (by rw [hwhat]; rfl))
      simpa [ExtTreeMap.getElem?_insert,hwd] using hwhat

/-- Adding a watch keeps what is known of every descriptor. -/
theorem addWatch_inode {path : AbsPath} {nofollow : Bool} {k k' : K} {result : Except Errno ℕ}
    (h : sys.addWatch path nofollow k = (result,k')) :
    (∀ wd j, i.inode k wd = some j → i.inode k' wd = some j) ∧ i.removed k' = i.removed k := by
  cases result with
  | error e =>
    obtain ⟨hinode,hremoved⟩ := i.addWatch_error h
    exact ⟨fun wd j hj => by rw [hinode]; exact hj,hremoved⟩
  | ok wd =>
    obtain ⟨j,hj,hinode,-,hremoved,-⟩ := i.addWatch_ok h
    refine ⟨fun wd' j' hj' => ?_,hremoved⟩
    rw [hinode,Function.update_apply]
    split_ifs with hwd
    · subst hwd
      rcases hj with hj | hj <;> rw [hj] at hj'
      · cases hj'
      · exact hj'
    · exact hj'

theorem addWatch_sound {path : AbsPath} {nofollow : Bool} {w : Watcher} {k k' : K}
    {result : Except Errno ℕ} (h : sys.addWatch path nofollow k = (result,k'))
    (hs : Sound i (w,k)) : Sound i (w,k') := by
  refine ⟨fun wd what hwd hset => ?_,hs.used⟩
  obtain ⟨j,hj,hc⟩ := hs.configured wd what hwd hset
  exact ⟨j,(addWatch_inode i h).1 wd j hj,hc⟩

theorem addWatch_keeps (id : GroupId) {path : AbsPath} {nofollow : Bool} {w : Watcher} {k k' : K}
    {result : Except Errno ℕ} (h : sys.addWatch path nofollow k = (result,k')) :
    Keeps i id (w,k) (w,k') where
  sound := addWatch_sound i h
  held := fun _ _ _ hh =>
    ⟨⟨hh.recorded,by rw [(addWatch_inode i h).2]; exact hh.kept⟩,hh.labelled⟩
  setGroups := fun _ _ => rfl

theorem watchDir_keeps {entry : GroupId × AbsPath} (hset : entry.1.set.isSome = true)
    (acc : Watcher × K) : Keeps i entry.1 acc (watchDir sys acc entry) := by
  obtain ⟨w,k⟩ := acc
  rcases hadd : sys.addWatch entry.2 true k with ⟨result,k'⟩
  have hkeeps : Keeps i entry.1 (w,k) (w,k') := addWatch_keeps i entry.1 hadd
  simp only [watchDir,hadd]
  rcases result with (_ | _) | wd
  · exact hkeeps.trans (forget_keeps i entry.1 (w,k'))
  · exact hkeeps
  · obtain ⟨j,-,-,hwd,hremoved,-⟩ := i.addWatch_ok hadd
    have hrecorded := (replace_recorded i entry.1 w (hremoved ▸ hwd)).1.recorded
    exact (hkeeps.trans (replace_keeps i entry.1 wd (w,k'))).trans
      (label_keeps i hset hrecorded)

/-- A directory that could be added is held. -/
theorem watchDir_held {entry : GroupId × AbsPath} (hset : entry.1.set.isSome = true)
    {acc : Watcher × K} (hs : Sound i acc) {wd : ℕ}
    (hok : (sys.addWatch entry.2 true acc.2).1 = .ok wd) :
    Held i entry.1 wd (watchDir sys acc entry) := by
  obtain ⟨w,k⟩ := acc
  rcases hadd : sys.addWatch entry.2 true k with ⟨result,k'⟩
  rw [hadd] at hok
  simp only at hok
  subst hok
  obtain ⟨j,-,hinode,hwd,hremoved,hconf⟩ := i.addWatch_ok hadd
  have hj : i.inode k' wd = some j := by rw [hinode,Function.update_self]
  obtain ⟨hrecorded,hinodes⟩ :=
    replace_recorded i entry.1 w (hremoved ▸ hwd : wd ∉ i.removed k')
  have hsound : Sound i (replace sys entry.1 wd (w,k')) :=
    (replace_keeps i entry.1 wd (w,k')).sound (addWatch_sound i hadd hs)
  simp only [watchDir,hadd,label]
  split
  · rename_i hmem
    obtain ⟨what,hwhat⟩ := Option.isSome_iff_exists.mp (ExtTreeMap.mem_iff_isSome_getElem?.mp hmem)
    refine ⟨hrecorded,what,hwhat,?_⟩
    by_contra hin
    -- A configured directory would be on this inode.
    obtain ⟨j',hj',hc⟩ := hsound.configured wd what hwhat (Bool.not_eq_true _ ▸ hin)
    rw [hinodes,hj] at hj'
    cases hj'
    exact absurd (hconf.mp hc) (by decide)
  · exact ⟨⟨hrecorded.recorded,hrecorded.kept⟩,.group entry.1,by simp,hset⟩

/-! ### The calls -/

variable (sys)

/-- The first loop of `sync`: the directories that are gone are forgotten. -/
def forgetGone (runtime : Runtime H) (acc : Watcher × K) : Watcher × K :=
  ((acc.1.setGroups.toList.map Prod.fst).filter fun id => id ∉ currentDirs runtime).foldl
    (fun acc id => forget sys id acc) acc

theorem sync_eq (runtime : Runtime H) (acc : Watcher × K) : sync sys runtime acc =
    (currentDirs runtime).toList.foldl (watchDir sys) (forgetGone sys runtime acc) := rfl

/-- The directory is added with the descriptor in this call of `sync`. -/
def Added (runtime : Runtime H) (acc : Watcher × K) (id : GroupId) (wd : ℕ) : Prop :=
  ∃ before path after, (currentDirs runtime).toList = before++(id,path)::after ∧
    (sys.addWatch path true (before.foldl (watchDir sys) (forgetGone sys runtime acc)).2).1 = .ok wd

/-- A watcher after calls of `sync` and `drain` in any order.  Other processes may act whenever
they like; what they cannot change is the inode of a descriptor, and which were removed. -/
inductive Synced : Watcher × K → Prop
  | new {H : Type} {runtime : Runtime H} {k k' : K} {w : Watcher}
      (h : watchRoots sys runtime k = (.ok w,k')) : Synced (w,k')
  | sync {H : Type} {runtime : Runtime H} {acc : Watcher × K} (h : Synced acc)
      (hdirs : SetDirs runtime) : Synced (Watcher.sync sys runtime acc)
  | drain {w w' : Watcher} {k : K} {events : List InotifyEvent} {changes : Changes}
      (h : Synced (w,k)) (hdrain : w.drain events none = .ok (changes,w')) : Synced (w',k)
  | others {w : Watcher} {k k' : K} (h : Synced (w,k)) (hinode : i.inode k' = i.inode k)
      (hremoved : i.removed k' = i.removed k) : Synced (w,k')

variable {sys}

theorem forgetGone_sound (runtime : Runtime H) {acc : Watcher × K} (h : Sound i acc) :
    Sound i (forgetGone sys runtime acc) := by
  unfold forgetGone
  generalize (acc.1.setGroups.toList.map Prod.fst).filter _ = gone
  induction gone generalizing acc with
  | nil => exact h
  | cons id gone ih => exact ih ((forget_keeps i id acc).sound h)

theorem foldl_watchDir_sound {dirs : List (GroupId × AbsPath)}
    (hdirs : ∀ e ∈ dirs, e.1.set.isSome = true) {acc : Watcher × K} (h : Sound i acc) :
    Sound i (dirs.foldl (watchDir sys) acc) := by
  induction dirs generalizing acc with
  | nil => exact h
  | cons e dirs ih =>
    have hstep := (watchDir_keeps i (hdirs e List.mem_cons_self) acc).sound h
    exact ih (fun e' he' => hdirs e' (List.mem_cons_of_mem e he')) hstep

/-- What is held stays so while other directories are added. -/
theorem foldl_watchDir_held {dirs : List (GroupId × AbsPath)} {id : GroupId} {wd : ℕ}
    (hdirs : ∀ e ∈ dirs, e.1.set.isSome = true ∧ id ≠ e.1) {acc : Watcher × K}
    (h : Held i id wd acc) : Held i id wd (dirs.foldl (watchDir sys) acc) := by
  induction dirs generalizing acc with
  | nil => exact h
  | cons e dirs ih =>
    obtain ⟨hset,hne⟩ := hdirs e List.mem_cons_self
    have hstep := (watchDir_keeps i hset acc).held id wd hne h
    exact ih (fun e' he' => hdirs e' (List.mem_cons_of_mem e he')) hstep

/-- The directories added with links followed keep the labels right. -/
theorem watchRoots_sound {runtime : Runtime H} {k k' : K} {w : Watcher}
    (h : watchRoots sys runtime k = (.ok w,k')) : Sound i (w,k') := by
  have hfold : ∀ (message : Watched × AbsPath → Errno → String) (entries : List (Watched × AbsPath))
      (w : Watcher) (k : K), (∀ e ∈ entries, e.1.inSet = false) → Sound i (w,k) → ∀ w' k',
      entries.foldl (fun acc e => watchConfigured sys (message e) e.2 e.1 acc) (.ok w,k) =
        (.ok w',k') → Sound i (w',k') := by
    intro message entries
    induction entries with
    | nil =>
      intro w k _ hs w' k' h
      cases h
      exact hs
    | cons e entries ih =>
      intro w k hin hs w' k' h
      rw [List.foldl_cons,watchConfigured] at h
      rcases hadd : sys.addWatch e.2 false k with ⟨result,k₁⟩
      simp only [hadd] at h
      cases result with
      | error e =>
        rw [foldl_watchConfigured_error _ fun _ _ _ => rfl] at h
        cases h
      | ok wd =>
        refine ih _ _ (fun e' he' => hin e' (List.mem_cons_of_mem e he')) ?_ w' k' h
        obtain ⟨j,-,hinode,-,-,hconf⟩ := i.addWatch_ok hadd
        have hs' : Sound i (w,k₁) := addWatch_sound i hadd hs
        have hget : ∀ (wd' : ℕ) (what : Watched), (w.watches.insert wd e.1)[wd']? = some what →
            wd' = wd ∧ what = e.1 ∨ w.watches[wd']? = some what := by
          intro wd' what hwhat
          by_cases hwd : wd = wd'
          · subst hwd
            rw [ExtTreeMap.getElem?_insert_self] at hwhat
            exact .inl ⟨rfl,(Option.some.inj hwhat).symm⟩
          · rw [ExtTreeMap.getElem?_insert,if_neg (by simpa using hwd)] at hwhat
            exact .inr hwhat
        refine ⟨fun wd' what hwhat hset => ?_,fun wd' what hwhat hset => ?_⟩
        · obtain ⟨rfl,-⟩ | hwhat := hget wd' what hwhat
          · exact ⟨j,by rw [hinode,Function.update_self],hconf.mpr rfl⟩
          · exact hs'.configured wd' what hwhat hset
        · obtain ⟨-,rfl⟩ | hwhat := hget wd' what hwhat
          · rw [hin e List.mem_cons_self] at hset
            cases hset
          · exact hs'.used wd' what hwhat hset
  obtain ⟨message,heq⟩ := @watchRoots_eq H K sys runtime k
  rw [heq] at h
  refine hfold message _ empty k (fun e he => ?_) ?_ w k' h
  · exact configured_inSet (List.mem_map_of_mem he)
  · refine ⟨fun wd what hwhat => ?_,fun wd what hwhat => ?_⟩ <;>
      simp [empty] at hwhat

theorem sync_sound {runtime : Runtime H} (hdirs : SetDirs runtime) {acc : Watcher × K}
    (h : Sound i acc) : Sound i (sync sys runtime acc) := by
  rw [sync_eq]
  exact foldl_watchDir_sound i (fun e he => currentDirs_inSet hdirs he)
    (forgetGone_sound i runtime h)

theorem synced_sound {acc : Watcher × K} (h : Synced sys i acc) : Sound i acc := by
  induction h with
  | new h => exact watchRoots_sound i h
  | sync _ hdirs ih => exact sync_sound i hdirs ih
  | drain _ hdrain ih =>
    cases hdrain
    have hget : ∀ {p : ℕ → Watched → Bool} {w : Watcher} {wd : ℕ} {what : Watched},
        (w.watches.filter p)[wd]? = some what → w.watches[wd]? = some what := by
      intro p w wd what h
      rw [ExtTreeMap.getElem?_filter'] at h
      exact (Option.filter_eq_some_iff.mp h).1
    exact ⟨fun wd what hwhat => ih.configured wd what (hget hwhat),
      fun wd what hwhat => ih.used wd what (hget hwhat)⟩
  | others _ hinode hremoved ih =>
    refine ⟨fun wd what hwhat hset => ?_,ih.used⟩
    rw [hinode]
    exact ih.configured wd what hwhat hset

/-- After a call of `sync` a directory that could be added is held. -/
theorem sync_held {runtime : Runtime H} (hdirs : SetDirs runtime) {acc : Watcher × K}
    (h : Sound i acc) {id : GroupId} {wd : ℕ} (hadded : Added sys runtime acc id wd) :
    Held i id wd (sync sys runtime acc) := by
  obtain ⟨before,path,after,hlist,hok⟩ := hadded
  have hset : ∀ e ∈ before++(id,path)::after, e.1.set.isSome = true := by
    rw [← hlist]
    exact fun e he => currentDirs_inSet hdirs he
  have hdistinct : (before++(id,path)::after).Pairwise fun a b => ¬compare a.1 b.1 = .eq := by
    rw [← hlist]
    exact (currentDirs runtime).distinct_keys_toList
  have hbefore := foldl_watchDir_sound i
    (fun e he => hset e (List.mem_append_left _ he)) (forgetGone_sound i runtime h)
  have hheld := watchDir_held i (hset (id,path) (by simp)) hbefore hok
  rw [sync_eq,hlist,List.foldl_append,List.foldl_cons]
  refine foldl_watchDir_held i (fun e he => ⟨hset e (by simp [he]),fun heq => ?_⟩) hheld
  have hpair := (List.pairwise_append.mp hdistinct).2.1
  refine List.rel_of_pairwise_cons hpair he ?_
  rw [← heq]
  exact ReflCmp.compare_self

include i in
/-- What is gone has no descriptor after the first loop. -/
theorem forgetGone_keys (runtime : Runtime H) {acc : Watcher × K} {id : GroupId}
    (h : id ∈ (forgetGone sys runtime acc).1.setGroups) : id ∈ currentDirs runtime := by
  have hfold : ∀ (gone : List GroupId) (acc : Watcher × K),
      id ∈ (gone.foldl (fun acc id => forget sys id acc) acc).1.setGroups →
        id ∈ acc.1.setGroups ∧ id ∉ gone := by
    intro gone
    induction gone with
    | nil => exact fun acc h => ⟨h,by simp⟩
    | cons id' gone ih =>
      intro acc h
      obtain ⟨hmem,hgone⟩ := ih (forget sys id' acc) h
      rw [ExtTreeMap.mem_iff_isSome_getElem?] at hmem
      have hne : id ≠ id' := by
        rintro rfl
        simp [forget_self] at hmem
      rw [(forget_keeps i id' acc).setGroups id hne,← ExtTreeMap.mem_iff_isSome_getElem?] at hmem
      exact ⟨hmem,by simp [hne,hgone]⟩
  obtain ⟨hmem,hgone⟩ := hfold _ acc h
  by_contra hcurrent
  refine hgone (List.mem_filter.mpr ⟨?_,by simpa using hcurrent⟩)
  rw [ExtTreeMap.map_fst_toList_eq_keys]
  exact ExtTreeMap.mem_keys.mpr hmem

include i in
/-- After a call of `sync` only directories of the runtime have descriptors. -/
theorem sync_keys {runtime : Runtime H} (hdirs : SetDirs runtime) {acc : Watcher × K}
    {id : GroupId} (h : id ∈ (sync sys runtime acc).1.setGroups) : id ∈ currentDirs runtime := by
  have hfold : ∀ (dirs : List (GroupId × AbsPath)) (acc : Watcher × K),
      (∀ e ∈ dirs, e.1.set.isSome = true) →
      id ∈ (dirs.foldl (watchDir sys) acc).1.setGroups →
        id ∈ acc.1.setGroups ∨ id ∈ dirs.map Prod.fst := by
    intro dirs
    induction dirs with
    | nil => exact fun acc _ h => .inl h
    | cons e dirs ih =>
      intro acc hset h
      have hset' : ∀ e' ∈ dirs, e'.1.set.isSome = true :=
        fun e' he' => hset e' (List.mem_cons_of_mem e he')
      obtain hmem | hmem := ih (watchDir sys acc e) hset' h
      · by_cases hne : id = e.1
        · exact .inr (by simp [hne])
        · rw [ExtTreeMap.mem_iff_isSome_getElem?,
            (watchDir_keeps i (hset e List.mem_cons_self) acc).setGroups id hne,
            ← ExtTreeMap.mem_iff_isSome_getElem?] at hmem
          exact .inl hmem
      · exact .inr (List.mem_cons_of_mem _ hmem)
  obtain hgone | hdir := hfold _ _ (fun e he => currentDirs_inSet hdirs he) h
  · exact forgetGone_keys i runtime hgone
  · rw [ExtTreeMap.map_fst_toList_eq_keys] at hdir
    exact ExtTreeMap.mem_keys.mp hdir

/-- A batch reports a change of a membership exactly if an event has a label and is not about a
configured directory itself. -/
theorem classify_membershipChanged {w : Watcher} {events : List InotifyEvent} :
    (w.classify events).membershipChanged = true ↔ ∃ e ∈ events, e.queueOverflow = false ∧
      ∃ what, w.watches[e.wd]? = some what ∧ (e.selfEvent = true → what.inSet = true) := by
  have hstep : ∀ (c : Changes) (e : InotifyEvent),
      (w.classifyEvent c e).membershipChanged = true ↔ c.membershipChanged = true ∨
        e.queueOverflow = false ∧ ∃ what, w.watches[e.wd]? = some what ∧
          (e.selfEvent = true → what.inSet = true) := by
    intro c e
    unfold classifyEvent
    by_cases ho : e.queueOverflow = true
    · simp [ho]
    · rw [if_neg ho]
      cases hw : w.watches[e.wd]? with
      | none => simp
      | some label =>
        cases label with
        | group id =>
          cases hself : e.selfEvent <;> cases hid : id.set <;> simp [ho,Watched.inSet,hid]
        | setRoot set => cases hself : e.selfEvent <;> simp [ho,Watched.inSet]
  have hdefault : ¬Changes.default.membershipChanged = true := by simp [Changes.default]
  refine (Lists.foldl_or_iff (Q := fun c : Changes => c.membershipChanged = true) hstep events
    .default).trans ?_
  rw [or_iff_right hdefault]

/-- An event of what is held makes the next drain report a change of a membership. -/
theorem Held.reported {id : GroupId} {wd : ℕ} {acc : Watcher × K} (h : Held i id wd acc)
    {events : List InotifyEvent} {e : InotifyEvent} (he : e ∈ events) (hwd : e.wd = wd)
    (hqueue : e.queueOverflow = false) : ∃ changes w',
      acc.1.drain events none = .ok (changes,w') ∧ changes.membershipChanged = true := by
  obtain ⟨what,hwhat,hset⟩ := h.labelled
  refine ⟨_,_,rfl,classify_membershipChanged.mpr ⟨e,he,hqueue,what,?_,fun _ => hset⟩⟩
  rw [hwd]
  exact hwhat

/-- After each call of `sync`, a directory of the runtime that could be added has that descriptor,
whose events are reported as changes of a membership; every label of a set is on a descriptor of a
directory of the runtime, and no other directory has a descriptor. -/
theorem sync_watches {H : Type} {runtime : Runtime H} (hdirs : SetDirs runtime)
    {acc : Watcher × K} (h : Synced sys i acc) :
    (∀ id wd, Added sys runtime acc id wd → Held i id wd (sync sys runtime acc) ∧
      ∀ events, ∀ e ∈ events, e.wd = wd → e.queueOverflow = false → ∃ changes w',
        (sync sys runtime acc).1.drain events none = .ok (changes,w') ∧
          changes.membershipChanged = true) ∧
    (∀ (wd : ℕ) (what : Watched), (sync sys runtime acc).1.watches[wd]? = some what →
      what.inSet = true → ∃ id : GroupId, id ∈ currentDirs runtime ∧
        (sync sys runtime acc).1.setGroups[id]? = some wd) ∧
    ∀ id : GroupId, id ∈ (sync sys runtime acc).1.setGroups → id ∈ currentDirs runtime := by
  have hsound := synced_sound i h
  refine ⟨fun id wd hadded => ?_,fun wd what hwhat hset => ?_,fun id hid => sync_keys i hdirs hid⟩
  · have hheld := sync_held i hdirs hsound hadded
    exact ⟨hheld,fun events e he hwd hqueue => hheld.reported i he hwd hqueue⟩
  · obtain ⟨id,hid⟩ := (sync_sound i hdirs hsound).used wd what hwhat hset
    have hmem : id ∈ (sync sys runtime acc).1.setGroups :=
      ExtTreeMap.mem_iff_isSome_getElem?.mpr (by rw [hid]; rfl)
    exact ⟨id,sync_keys i hdirs hmem,hid⟩

end Watcher

namespace SampleKernel

/-- The inodes in the order in which their watches were added, and the removed watches. -/
structure Kernel where
  handed : List ℕ
  removed : List ℕ
  issued : ∀ wd ∈ removed, wd < handed.length

def Kernel.empty : Kernel := ⟨[],[],by simp⟩

def root : AbsPath := ⟨[['m']],by decide⟩
def dir : AbsPath := ⟨[['m'],['d']],by decide⟩

/-- The membership root and a directory in it. -/
def inodeAt (path : AbsPath) (nofollow : Bool) : Option ℕ :=
  if path = root ∧ nofollow = false then some 0
  else if path = dir ∧ nofollow = true then some 1
  else none

/-- A directory that is watched has its descriptor; another gets a new one. -/
def addWatch (path : AbsPath) (nofollow : Bool) (k : Kernel) : Except Errno ℕ × Kernel :=
  match inodeAt path nofollow with
  | none => (.error .noent,k)
  | some j =>
    match (List.range k.handed.length).find? fun wd => k.handed[wd]? = some j && wd ∉ k.removed with
    | some wd => (.ok wd,k)
    | none => (.ok k.handed.length,
        {k with handed := k.handed++[j], issued := fun wd h => (k.issued wd h).trans (by simp)})

def removeWatch (wd : ℕ) (k : Kernel) : Kernel :=
  if h : wd < k.handed.length then
    {k with removed := wd::k.removed, issued := by simpa [h] using k.issued}
  else k

def inotifySys : InotifySys Kernel := ⟨addWatch,removeWatch,fun _ => "an error"⟩

theorem addWatch_cases {path : AbsPath} {nofollow : Bool} {k k' : Kernel}
    {result : Except Errno ℕ} (h : addWatch path nofollow k = (result,k')) :
    (result = .error .noent ∧ k' = k) ∨ ∃ wd j, result = .ok wd ∧ inodeAt path nofollow = some j ∧
      wd ∉ k.removed ∧ (k.handed[wd]? = some j ∧ k' = k ∨
        wd = k.handed.length ∧ k'.handed = k.handed++[j] ∧ k'.removed = k.removed) := by
  unfold addWatch at h
  split at h
  · cases h
    exact .inl ⟨rfl,rfl⟩
  · rename_i j hj
    split at h
    · rename_i wd hfind
      cases h
      have hwd := List.find?_some hfind
      simp only [Bool.and_eq_true,decide_eq_true_eq] at hwd
      exact .inr ⟨wd,j,rfl,hj,hwd.2,.inl ⟨hwd.1,rfl⟩⟩
    · cases h
      refine .inr ⟨k.handed.length,j,rfl,hj,fun hmem => ?_,.inr ⟨rfl,rfl,rfl⟩⟩
      exact absurd (k.issued _ hmem) (lt_irrefl _)

/-- The kernel is as assumed. -/
def inotify : Inotify inotifySys where
  Inode := ℕ
  inode := fun k wd => k.handed[wd]?
  removed := fun k => {wd | wd ∈ k.removed}
  configured := fun j => j = 0
  addWatch_ok := by
    intro path nofollow k k' wd h
    obtain ⟨h,-⟩ | ⟨wd',j,hwd,hj,hremoved,hcase⟩ := addWatch_cases h
    · cases h
    · cases hwd
      have hconf : j = 0 ↔ nofollow = false := by
        unfold inodeAt at hj
        split_ifs at hj with h₁ h₂ <;> cases hj
        · simp [h₁.2]
        · simp [h₂.2]
      obtain ⟨hget,rfl⟩ | ⟨rfl,hhanded,hsame⟩ := hcase
      · exact ⟨j,.inr hget,by rw [← hget]; simp,hremoved,rfl,hconf⟩
      · refine ⟨j,.inl (by simp),funext fun wd => ?_,hremoved,by simp only [hsame],hconf⟩
        rw [hhanded,Function.update_apply]
        by_cases hwd : wd = k.handed.length
        · simp [hwd]
        · rw [if_neg hwd]
          by_cases hlt : wd < k.handed.length
          · rw [List.getElem?_append_left hlt]
          · rw [List.getElem?_eq_none (by simp; omega),List.getElem?_eq_none (by omega)]
  addWatch_error := by
    intro path nofollow k k' e h
    obtain ⟨-,rfl⟩ | ⟨_,_,h,-⟩ := addWatch_cases h
    · exact ⟨rfl,rfl⟩
    · cases h
  removeWatch := by
    intro wd k
    have hsys : inotifySys.removeWatch wd k = removeWatch wd k := rfl
    rw [hsys]
    unfold removeWatch
    split
    · rename_i hlt
      exact ⟨rfl,fun wd' => by simp [hlt,or_comm]⟩
    · rename_i hge
      have hnone : k.handed[wd]? = none := List.getElem?_eq_none (by omega)
      exact ⟨rfl,fun wd' => by simp [hnone]⟩

/-- The directory of the set `s` at the path. -/
def id : GroupId := ⟨some ⟨['s'],by decide⟩,[⟨['d'],by decide⟩]⟩

def runtime : Runtime Unit := {(Runtime.empty : Runtime Unit) with intermediates := {(id,dir)}}

/-- A watcher before its first call of `sync`. -/
def started : Watcher × Kernel := (Watcher.empty,Kernel.empty)

theorem currentDirs_runtime : (Watcher.currentDirs runtime).toList = [(id,dir)] := by
  decide +kernel

theorem sync_watches_run : Watcher.SetDirs runtime ∧ Watcher.Synced inotifySys inotify started ∧
    Watcher.Added inotifySys runtime started id 0 ∧
    Watcher.Held inotify id 0 (Watcher.sync inotifySys runtime started) := by
  have hdirs : Watcher.SetDirs runtime := by
    intro id' path h
    have hmem := ExtTreeMap.mem_iff_isSome_getElem?.mpr (Option.isSome_iff_exists.mpr ⟨path,h⟩)
    have hcompare : compare id id' = .eq := by simpa [runtime,eq_comm] using hmem
    rw [← LawfulEqCmp.compare_eq_iff_eq.mp hcompare]
    rfl
  have hroots : Watcher.watchRoots inotifySys (Runtime.empty : Runtime Unit) Kernel.empty =
      (.ok Watcher.empty,Kernel.empty) := rfl
  have hstarted : Watcher.Synced inotifySys inotify started := .new hroots
  have hadded : Watcher.Added inotifySys runtime started id 0 := by
    refine ⟨[],dir,[],currentDirs_runtime,?_⟩
    decide +kernel
  exact ⟨hdirs,hstarted,hadded,((Watcher.sync_watches inotify hdirs hstarted).1 id 0 hadded).1⟩

end SampleKernel
end Byssus
