import Byssus.Library.Program
import Byssus.MembershipAreas
import Byssus.ScanSpec
import Byssus.Watcher

/-! Which groups and sets a drain reports lost.
The watch table has one label for each descriptor: what was watched last with it since
`Watcher::new`.  Synchronisation keeps the labels of configured directories. -/
namespace Byssus

open Std

variable {α H K : Type}

/-- What is watched in `Watcher::new`, in order. -/
def configured (runtime : Runtime H) : List (Watched × AbsPath) :=
  (runtime.groups.toList.filter fun entry => entry.1.set.isNone).map
      (fun entry => (.group entry.1,entry.2.config.membership))++
    runtime.sets.toList.map fun entry => (.setRoot entry.1,entry.2.config.membershipRoot)

/-- The descriptors that these watches get, up to the first error. -/
def descriptors (sys : InotifySys K) : List (Watched × AbsPath) → K → List (Watched × ℕ)
  | [],_ => []
  | (what,path)::rest,k =>
    match sys.addWatch path false k with
    | (.error _,_) => []
    | (.ok wd,k) => (what,wd)::descriptors sys rest k

/-- `what` is watched since `Watcher::new`, with the descriptor `wd`. -/
def Assigned (sys : InotifySys K) (runtime : Runtime H) (k : K) (what : Watched) (wd : ℕ) : Prop :=
  (what,wd) ∈ descriptors sys (configured runtime) k

/-- A group or set that was reported lost. -/
abbrev Changes.Reports (changes : Changes) (what : Watched) : Prop :=
  Watcher.isLost changes what = true

namespace Watcher

variable {sys : InotifySys K}

/-! ### Labels -/

/-- The label of a configured directory is in place. -/
def Labels (w : Watcher) (wd : ℕ) (what : Watched) : Prop :=
  w.watches[wd]? = some what ∧ what.inSet = false

theorem release_labels {wd wd' : ℕ} {what : Watched} {w : Watcher} {k : K} :
    (release sys wd' (w,k)).1.Labels wd what ↔ w.Labels wd what := by
  simp only [release,Labels]
  split_ifs with hused hin
  · rfl
  · rw [ExtTreeMap.getElem?_erase]
    by_cases hwd : wd' = wd
    · subst hwd
      cases hw : w.watches[wd']? with
      | none => simp
      | some x =>
        simp only [hw,Option.any_some] at hin
        constructor
        · rintro ⟨h,-⟩
          simp at h
        · rintro ⟨h,hx⟩
          cases h
          rw [hin] at hx
          cases hx
    · have hc : ¬compare wd' wd = .eq := by simpa [LawfulEqCmp.compare_eq_iff_eq] using hwd
      rw [if_neg hc]
  · rfl

theorem forget_labels {id : GroupId} {wd : ℕ} {what : Watched} {w : Watcher} {k : K} :
    (forget sys id (w,k)).1.Labels wd what ↔ w.Labels wd what := by
  simp only [forget]
  cases w.setGroups[id]? with
  | none => rfl
  | some old => exact release_labels

theorem replace_labels {id : GroupId} {wd wd' : ℕ} {what : Watched} {w : Watcher} {k : K} :
    (replace sys id wd' (w,k)).1.Labels wd what ↔ w.Labels wd what := by
  simp only [replace]
  cases w.setGroups[id]? with
  | none => rfl
  | some old =>
    by_cases h : old ≠ wd'
    · simp only [if_pos h]
      exact release_labels
    · simp only [if_neg h]
      rfl

theorem label_labels {wd wd' : ℕ} {what x : Watched} {w : Watcher} (hx : x.inSet = true) :
    (label wd' x w).Labels wd what ↔ w.Labels wd what := by
  unfold label Labels
  split
  · rfl
  · rename_i hno
    rw [ExtTreeMap.getElem?_insert]
    by_cases hwd : wd' = wd
    · subst hwd
      have hn : w.watches[wd']? = none := ExtTreeMap.getElem?_eq_none hno
      simp only [ReflCmp.compare_self,if_true,hn]
      constructor
      · rintro ⟨h,hw⟩
        cases h
        rw [hx] at hw
        cases hw
      · rintro ⟨h,-⟩
        cases h
    · have hc : ¬compare wd' wd = .eq := by simpa [LawfulEqCmp.compare_eq_iff_eq] using hwd
      rw [if_neg hc]

theorem watchDir_labels {entry : GroupId × AbsPath} {wd : ℕ} {what : Watched} {w : Watcher}
    {k : K} (hset : entry.1.set.isSome = true) :
    (watchDir sys (w,k) entry).1.Labels wd what ↔ w.Labels wd what := by
  unfold watchDir
  obtain ⟨result,k'⟩ := sys.addWatch entry.2 true k
  cases result with
  | ok wd' =>
    exact (label_labels (x := .group entry.1) hset).trans replace_labels
  | error e =>
    cases e with
    | noent => exact forget_labels
    | other code => rfl

/-- Every intermediate directory is named by a set. -/
def SetDirs (runtime : Runtime H) : Prop :=
  ∀ (id : GroupId) (path : AbsPath), runtime.intermediates[id]? = some path → id.set.isSome = true

/-- Only set groups and intermediate directories are synchronised. -/
theorem currentDirs_inSet {runtime : Runtime H} {entry : GroupId × AbsPath}
    (hkeys : SetDirs runtime)
    (h : entry ∈ (currentDirs runtime).toList) : entry.1.set.isSome = true := by
  have hfold : ∀ {α : Type} (key : α → GroupId) (val : α → AbsPath) (l : List α)
      (m : ExtTreeMap GroupId AbsPath), (∀ a ∈ l, (key a).set.isSome = true) →
      (∀ (id : GroupId) (path : AbsPath), m[id]? = some path → id.set.isSome = true) →
      ∀ (id : GroupId) (path : AbsPath), (l.foldl (fun m a => m.insert (key a) (val a)) m)[id]? = some path →
        id.set.isSome = true := by
    intro α key val l
    induction l with
    | nil => exact fun m _ hm => hm
    | cons a l ih =>
      intro m hl hm
      apply ih _ fun b hb => hl b (by simp [hb])
      intro id path hget
      rw [ExtTreeMap.getElem?_insert] at hget
      by_cases hk : key a = id
      · rw [← hk]
        exact hl a (by simp)
      · have hc : ¬compare (key a) id = .eq := by simpa [LawfulEqCmp.compare_eq_iff_eq] using hk
        rw [if_neg hc] at hget
        exact hm id path hget
  rw [ExtTreeMap.mem_toList_iff_getElem?_eq_some] at h
  refine hfold Prod.fst Prod.snd _ _ ?_ ?_ _ _ h
  · intro a ha
    exact hkeys a.1 a.2 (ExtTreeMap.mem_toList_iff_getElem?_eq_some.mp ha)
  · refine hfold Prod.fst (fun e : GroupId × GroupRuntime H => e.2.config.membership) _ _ ?_
      (by simp)
    intro a ha
    exact (List.mem_filter.mp ha).2

theorem sync_labels {runtime : Runtime H} (hkeys : SetDirs runtime) {wd : ℕ} {what : Watched}
    {w : Watcher} {k : K} :
    (sync sys runtime (w,k)).1.Labels wd what ↔ w.Labels wd what := by
  have hgone : ∀ (ids : List GroupId) (acc : Watcher × K),
      (ids.foldl (fun acc id => forget sys id acc) acc).1.Labels wd what ↔
        acc.1.Labels wd what := by
    intro ids
    induction ids with
    | nil => exact fun _ => Iff.rfl
    | cons id ids ih => exact fun acc => (ih _).trans forget_labels
  have hcurrent : ∀ (dirs : List (GroupId × AbsPath)) (acc : Watcher × K),
      (∀ dir ∈ dirs, dir.1.set.isSome = true) →
      ((dirs.foldl (watchDir sys) acc).1.Labels wd what ↔ acc.1.Labels wd what) := by
    intro dirs
    induction dirs with
    | nil => exact fun _ _ => Iff.rfl
    | cons dir dirs ih =>
      intro acc h
      exact (ih _ fun d hd => h d (by simp [hd])).trans (watchDir_labels (h dir (by simp)))
  exact (hcurrent _ _ fun dir hdir => currentDirs_inSet hkeys hdir).trans (hgone _ _)

/-! ### What `new` watches -/

theorem foldl_watchConfigured_error (f : (Except String Watcher × K) → α → Except String Watcher × K)
    (hf : ∀ e k a, f (.error e,k) a = (.error e,k)) (l : List α) (e : String) (k : K) :
    l.foldl f (.error e,k) = (.error e,k) := by
  induction l with
  | nil => rfl
  | cons a l ih => rw [List.foldl_cons,hf,ih]

/-- The message of an error on watching a configured directory. -/
def rootMessage (sys : InotifySys K) (entry : Watched × AbsPath) (e : Errno) : String :=
  match entry.1 with
  | .group id => "cannot watch membership directory " ++ displayPath entry.2 ++
    " of group '" ++ String.ofList id.display ++ "': " ++ sys.strerror e
  | .setRoot name => "cannot watch membership_root " ++ displayPath entry.2 ++
    " of group set '" ++ String.ofList name.text ++ "': " ++ sys.strerror e

/-- `watchRoots` as one loop over the configured directories. -/
theorem watchRoots_eq (runtime : Runtime H) (k : K) :
    ∃ message : Watched × AbsPath → Errno → String, watchRoots sys runtime k =
      (configured runtime).foldl (fun acc entry =>
        watchConfigured sys (message entry) entry.2 entry.1 acc) (.ok empty,k) := by
  refine ⟨rootMessage sys,?_⟩
  unfold watchRoots configured
  rw [List.foldl_append,List.foldl_map,List.foldl_map]
  rfl

/-- When every watch succeeds, each configured directory has a descriptor, and the label of
a descriptor is what was watched last with it. -/
theorem foldl_watchConfigured (message : Watched × AbsPath → Errno → String)
    (entries : List (Watched × AbsPath)) (w w' : Watcher) (k k' : K)
    (h : entries.foldl (fun acc entry => watchConfigured sys (message entry) entry.2 entry.1 acc)
      (.ok w,k) = (.ok w',k')) :
    (descriptors sys entries k).map Prod.fst = entries.map Prod.fst ∧
      w'.watches = (descriptors sys entries k).foldl (fun m x => m.insert x.2 x.1) w.watches := by
  induction entries generalizing w k with
  | nil =>
    cases h
    exact ⟨rfl,rfl⟩
  | cons entry entries ih =>
    obtain ⟨what,path⟩ := entry
    rw [List.foldl_cons] at h
    simp only [watchConfigured] at h
    simp only [descriptors]
    cases hadd : sys.addWatch path false k with
    | mk result k₁ =>
      rw [hadd] at h
      cases result with
      | error e =>
        rw [foldl_watchConfigured_error _ (fun _ _ _ => rfl)] at h
        cases h
      | ok wd =>
        obtain ⟨h₁,h₂⟩ := ih (w.watch wd what) k₁ h
        exact ⟨by rw [List.map_cons,List.map_cons,h₁],h₂⟩

theorem configured_nodup (runtime : Runtime H) : ((configured runtime).map Prod.fst).Nodup := by
  have hkeys : ∀ {κ β : Type} [Ord κ] [TransOrd κ] [LawfulEqOrd κ] (m : ExtTreeMap κ β)
      (f : κ → Watched), Function.Injective f →
      (m.toList.map fun e => f e.1).Pairwise fun a b => a ≠ b := by
    intro κ β _ _ _ m f hf
    rw [List.pairwise_map]
    refine m.distinct_keys_toList.imp ?_
    intro a b hab he
    exact hab (by rw [hf he]; exact ReflCmp.compare_self)
  have hstatic := hkeys runtime.groups .group fun a b h => by cases h; rfl
  have hsets := hkeys runtime.sets .setRoot fun a b h => by cases h; rfl
  unfold configured
  rw [List.map_append,List.map_map,List.map_map,List.nodup_append]
  refine ⟨hstatic.sublist (List.filter_sublist.map _),hsets,?_⟩
  intro a ha b hb hab
  obtain ⟨e,-,rfl⟩ := List.mem_map.mp ha
  obtain ⟨e',-,rfl⟩ := List.mem_map.mp hb
  cases hab

theorem configured_inSet {runtime : Runtime H} {what : Watched}
    (h : what ∈ (configured runtime).map Prod.fst) : what.inSet = false := by
  unfold configured at h
  rw [List.map_append,List.map_map,List.map_map,List.mem_append] at h
  rcases h with h | h
  · obtain ⟨e,he,rfl⟩ := List.mem_map.mp h
    have hn := (List.mem_filter.mp he).2
    simpa [Watched.inSet] using hn
  · obtain ⟨e,-,rfl⟩ := List.mem_map.mp h
    rfl

/-- What `new` leaves in the table for configured directories. -/
theorem new_labels {runtime : Runtime H} (hdirs : SetDirs runtime) {k k' : K} {w : Watcher}
    (h : new sys runtime k = (.ok w,k')) :
    (descriptors sys (configured runtime) k).map Prod.fst = (configured runtime).map Prod.fst ∧
      ∀ wd what, w.Labels wd what ↔
        ((descriptors sys (configured runtime) k).filter fun x => x.2 = wd).getLast? =
          some (what,wd) := by
  obtain ⟨message,heq⟩ : ∃ message : Watched × AbsPath → Errno → String, watchRoots sys runtime k =
      (configured runtime).foldl (fun acc entry =>
        watchConfigured sys (message entry) entry.2 entry.1 acc) (.ok empty,k) :=
    watchRoots_eq runtime k
  unfold new at h
  cases hroots : watchRoots sys runtime k with
  | mk result k₁ =>
    rw [hroots] at h
    cases result with
    | error e => cases h
    | ok w₀ =>
      rw [hroots] at heq
      obtain ⟨hfst,hwatches⟩ := foldl_watchConfigured message _ _ _ _ _ heq.symm
      refine ⟨hfst,fun wd what => ?_⟩
      have hw : w = (sync sys runtime (w₀,k₁)).1 := by
        cases h
        rfl
      have hget : w₀.watches[wd]? =
          (((descriptors sys (configured runtime) k).filter fun x => x.2 = wd).getLast?).map
            Prod.fst := by
        rw [hwatches]
        generalize descriptors sys (configured runtime) k = l
        induction l using List.reverseRecOn with
        | nil => simp [empty]
        | append_singleton done x ih =>
          rw [List.foldl_append,List.filter_append]
          simp only [List.foldl_cons,List.foldl_nil,ExtTreeMap.getElem?_insert]
          by_cases hx : x.2 = wd
          · simp [hx]
          · simp [hx,LawfulEqCmp.compare_eq_iff_eq,ih]
      rw [hw,sync_labels hdirs,Labels,hget]
      constructor
      · rintro ⟨hl,-⟩
        obtain ⟨x,hx,rfl⟩ := Option.map_eq_some_iff.mp hl
        rw [hx]
        have hm := List.mem_of_getLast? hx
        simp only [List.mem_filter,decide_eq_true_eq] at hm
        rw [← hm.2]
      · intro hl
        refine ⟨by rw [hl]; rfl,?_⟩
        have hm := List.mem_of_getLast? hl
        have hc : what ∈ (configured runtime).map Prod.fst := by
          rw [← hfst]
          exact List.mem_map_of_mem (List.mem_filter.mp hm).1
        exact configured_inSet hc

/-! ### Runs -/

/-- A self event of the descriptor is among the events. -/
def ReadsSelf (wd : ℕ) (events : List InotifyEvent) : Prop :=
  ∃ e ∈ events, e.queueOverflow = false ∧ e.selfEvent = true ∧ e.wd = wd

/-- Calls of `sync`, each after a discovery, and of `drain`, in any order, where `quiet`
holds of every batch that is read.  What the kernel and the file system answer is any. -/
inductive Calls (quiet : List InotifyEvent → Prop) (w : Watcher) : Watcher → Prop
  | refl : Calls quiet w w
  | sync {w' : Watcher} (h : Calls quiet w w') {H K : Type} (sys : InotifySys K)
      (env : ScanEnv H) (runtime : Runtime H) (skip : Finset Name) (k : K) :
      Calls quiet w (Watcher.sync sys (runtime.discover env skip).1 (w',k)).1
  | drain {w' w'' : Watcher} (h : Calls quiet w w') {events : List InotifyEvent}
      {changes : Changes} (hquiet : quiet events)
      (hdrain : w'.drain events none = .ok (changes,w'')) : Calls quiet w w''

/-- A batch reports lost exactly the configured labels of which it holds a self event. -/
theorem classify_reports {w : Watcher} {events : List InotifyEvent} {what : Watched} :
    (w.classify events).Reports what ↔ ∃ e ∈ events, e.queueOverflow = false ∧
      e.selfEvent = true ∧ w.Labels e.wd what := by
  have hstep : ∀ (c : Changes) (e : InotifyEvent), isLost (w.classifyEvent c e) what = true ↔
      isLost c what = true ∨ (e.queueOverflow = false ∧ e.selfEvent = true ∧
        w.Labels e.wd what) := by
    intro c e
    unfold classifyEvent Labels
    by_cases ho : e.queueOverflow = true
    · cases what <;> simp [ho,isLost]
    · rw [if_neg ho]
      cases hw : w.watches[e.wd]? with
      | none => simp
      | some label =>
        cases label with
        | group id =>
          by_cases hself : e.selfEvent = true
          · by_cases hid : id.set = none
            · have ha : id.set.isNone = true := by rw [hid]; rfl
              cases what with
              | group id' => simp [hself,hid,isLost,ho,Watched.inSet]; grind
              | setRoot s => simp [hself,hid,isLost,Watched.inSet]
            · cases what with
              | group id' => simp [hself,hid,isLost,ho,Watched.inSet]; grind
              | setRoot s => simp [hself,hid,isLost]
          · cases what <;> simp [hself,isLost]
        | setRoot set =>
          by_cases hself : e.selfEvent = true
          · cases what with
            | group id' => simp [hself,isLost]
            | setRoot s => simp [hself,isLost,ho,Watched.inSet]; grind
          · cases what <;> simp [hself,isLost]
  have hdefault : ¬isLost .default what = true := by
    cases what <;> simp [isLost,Changes.default]
  refine (Lists.foldl_or_iff (Q := fun c => isLost c what = true) hstep events .default).trans ?_
  rw [or_iff_right hdefault]

theorem drain_changes {w w' : Watcher} {events : List InotifyEvent} {changes : Changes}
    (h : w.drain events none = .ok (changes,w')) : changes = w.classify events := by
  cases h
  rfl

theorem drain_labels {w w' : Watcher} {events : List InotifyEvent} {changes : Changes}
    (h : w.drain events none = .ok (changes,w')) {wd : ℕ} {what : Watched} :
    w'.Labels wd what ↔ w.Labels wd what ∧ ¬changes.Reports what := by
  cases h
  unfold Labels
  rw [ExtTreeMap.getElem?_filter',Option.filter_eq_some_iff]
  simp
  tauto

theorem setDirs_discover (env : ScanEnv H) (runtime : Runtime H) (skip : Finset Name) :
    SetDirs (runtime.discover env skip).1 := by
  intro id path h
  obtain ⟨s,set,names,-,-,-,-,-,rfl,-⟩ := discover_intermediates.mp h
  rfl

/-- Along such calls the labels of a descriptor without a self event stay, and no label of a
configured directory comes up elsewhere. -/
theorem calls_labels {w w' : Watcher} {wd : ℕ}
    (hunique : ∀ what a b, w.Labels a what → w.Labels b what → a = b)
    (h : Calls (¬ReadsSelf wd ·) w w') : (∀ what, w.Labels wd what → w'.Labels wd what) ∧
      ∀ a what, w'.Labels a what → w.Labels a what := by
  induction h with
  | refl => exact ⟨fun _ h => h,fun _ _ h => h⟩
  | sync _ sys env runtime skip k ih =>
    have hdirs := setDirs_discover env runtime skip
    exact ⟨fun what h => (sync_labels hdirs).mpr (ih.1 what h),
      fun a what h => ih.2 a what ((sync_labels hdirs).mp h)⟩
  | drain _ hquiet hdrain ih =>
    constructor
    · intro what hwhat
      refine (drain_labels hdrain).mpr ⟨ih.1 what hwhat,fun hrep => hquiet ?_⟩
      rw [drain_changes hdrain] at hrep
      obtain ⟨e,he,ho,hself,hl⟩ := classify_reports.mp hrep
      exact ⟨e,he,ho,hself,hunique what e.wd wd (ih.2 e.wd what hl) hwhat⟩
    · exact fun a what hwhat => ih.2 a what ((drain_labels hdrain).mp hwhat).1

/-- A configured directory has one label at most. -/
theorem new_labels_unique {runtime : Runtime H} (hdirs : SetDirs runtime) {k k' : K} {w : Watcher}
    (h : new sys runtime k = (.ok w,k')) {what : Watched} {a b : ℕ} (ha : w.Labels a what)
    (hb : w.Labels b what) : a = b := by
  obtain ⟨hfst,hlabels⟩ := new_labels hdirs h
  have hnodup := configured_nodup runtime
  rw [← hfst] at hnodup
  have hmem : ∀ wd, w.Labels wd what → (what,wd) ∈ descriptors sys (configured runtime) k :=
    fun wd hl => (List.mem_filter.mp (List.mem_of_getLast? ((hlabels wd what).mp hl))).1
  have heq := List.inj_on_of_nodup_map hnodup (hmem a ha) (hmem b hb) rfl
  exact congrArg Prod.snd heq

end Watcher

theorem openGroup_intermediates {env : OpenEnv H} {g : GroupConfig} {runtime runtime' : Runtime H}
    (h : openGroup env g runtime = .ok runtime') : runtime'.intermediates = runtime.intermediates := by
  unfold openGroup at h
  cases hd : openDirs env (.group g.name) g.sourceRoot g.targetRoot "membership" g.membership with
  | error e => rw [hd] at h; cases h
  | ok dir => rw [hd] at h; cases h; rfl

theorem openSet_intermediates {env : OpenEnv H} {s : GroupSetConfig} {runtime runtime' : Runtime H}
    (h : openSet env s runtime = .ok runtime') : runtime'.intermediates = runtime.intermediates := by
  unfold openSet at h
  cases hd : openDirs env (.set s.name) s.sourceRoot s.targetRoot "membership_root"
      s.membershipRoot with
  | error e => rw [hd] at h; cases h
  | ok dir => rw [hd] at h; cases h; rfl

theorem setDirs_open {env : OpenEnv H} {config : Config} {runtime : Runtime H}
    (h : Runtime.open env config = .ok runtime) : Watcher.SetDirs runtime := by
  have hopen : runtime.intermediates = ∅ := by
    unfold Runtime.open at h
    cases hg : config.groups.toList.foldlM (fun runtime entry => openGroup env entry.2 runtime)
        Runtime.empty with
    | error e => rw [hg] at h; cases h
    | ok runtime' =>
      rw [hg] at h
      have h₁ : runtime'.intermediates = ∅ := Program.foldlM_ok_induction
        (P := fun rt : Runtime H => rt.intermediates = ∅)
        (fun _ _ _ hp he => (openGroup_intermediates he).trans hp) rfl hg
      exact Program.foldlM_ok_induction (P := fun rt : Runtime H => rt.intermediates = ∅)
        (fun _ _ _ hp he => (openSet_intermediates he).trans hp) h₁ h
  intro id path hget
  rw [hopen] at hget
  simp at hget

/-- A self event of a watched membership directory is reported for every group and set of that
directory exactly if there is one such group or set. -/
theorem lost_reported_iff {D H K : Type} {env : OpenEnv H} {config : Config} {runtime : Runtime H}
    (hopen : Runtime.open env config = .ok runtime) {sys : InotifySys K} {k k' : K}
    {w w₁ w₂ : Watcher} (hnew : Watcher.new sys runtime k = (.ok w,k')) (dir : Watched → D)
    (hdir : ∀ {x y a b}, Assigned sys runtime k x a → Assigned sys runtime k y b →
      (dir x = dir y ↔ a = b))
    {what : Watched} {wd : ℕ} (hwatched : Assigned sys runtime k what wd)
    (hrun : Watcher.Calls (¬Watcher.ReadsSelf wd ·) w w₁) {events : List InotifyEvent}
    {changes : Changes} (hdrain : w₁.drain events none = .ok (changes,w₂))
    (hread : Watcher.ReadsSelf wd events) :
    (∀ x ∈ (configured runtime).map Prod.fst, dir x = dir what → changes.Reports x) ↔
      ∀ x ∈ (configured runtime).map Prod.fst, dir x = dir what → x = what := by
  have hdirs := setDirs_open hopen
  obtain ⟨hfst,hlabels⟩ := Watcher.new_labels hdirs hnew
  have hunique : ∀ what a b, w.Labels a what → w.Labels b what → a = b :=
    fun _ _ _ => Watcher.new_labels_unique hdirs hnew
  obtain ⟨hkept,hold⟩ := Watcher.calls_labels hunique hrun
  -- the label of the descriptor is what was watched last with it
  have hshared : what ∈ ((descriptors sys (configured runtime) k).filter
      fun x => x.2 = wd).map Prod.fst :=
    List.mem_map_of_mem (List.mem_filter.mpr ⟨hwatched,by simp⟩)
  obtain ⟨last,hlast,hlastwd⟩ : ∃ last, w.Labels wd last ∧ Assigned sys runtime k last wd := by
    cases hl : ((descriptors sys (configured runtime) k).filter fun x => x.2 = wd).getLast? with
    | none =>
      rw [List.getLast?_eq_none_iff.mp hl] at hshared
      cases hshared
    | some x =>
      obtain ⟨hx,hwd⟩ := List.mem_filter.mp (List.mem_of_getLast? hl)
      have hx' : x = (x.1,wd) := by rw [← of_decide_eq_true hwd]
      exact ⟨x.1,(hlabels wd x.1).mpr (by rw [hl,← hx']),by rw [Assigned,← hx']; exact hx⟩
  have hreports : ∀ x, changes.Reports x ∧ Assigned sys runtime k x wd ↔ x = last := by
    intro x
    rw [Watcher.drain_changes hdrain,Watcher.classify_reports]
    constructor
    · rintro ⟨⟨e,he,ho,hself,hl⟩,hx⟩
      have hl' := hold e.wd x hl
      have hm := (List.mem_filter.mp (List.mem_of_getLast? ((hlabels e.wd x).mp hl'))).1
      have hnodup := Watcher.configured_nodup runtime
      rw [← hfst] at hnodup
      have hwd := congrArg Prod.snd (List.inj_on_of_nodup_map hnodup hm hx rfl)
      rw [show e.wd = wd from hwd] at hl'
      exact Option.some.inj (hl'.1.symm.trans hlast.1)
    · rintro rfl
      obtain ⟨e,he,ho,hself,rfl⟩ := hread
      exact ⟨⟨e,he,ho,hself,hkept x hlast⟩,hlastwd⟩
  have hassigned : ∀ x ∈ (configured runtime).map Prod.fst, dir x = dir what →
      Assigned sys runtime k x wd := by
    intro x hx hsame
    rw [← hfst] at hx
    obtain ⟨entry,hentry,rfl⟩ := List.mem_map.mp hx
    have hwd := (hdir (x := entry.1) (a := entry.2) hentry hwatched).mp hsame
    rw [← hwd]
    exact hentry
  have hconfigured : ∀ x, Assigned sys runtime k x wd → x ∈ (configured runtime).map Prod.fst := by
    intro x hx
    rw [← hfst]
    exact List.mem_map_of_mem hx
  constructor
  · intro hall x hx hsame
    have hx' := (hreports x).mp ⟨hall x hx hsame,hassigned x hx hsame⟩
    have hwhat := (hreports what).mp ⟨hall what (hconfigured what hwatched) rfl,hwatched⟩
    rw [hx',hwhat]
  · intro hone x hx hsame
    have hl := hone last (hconfigured last hlastwd) ((hdir hlastwd hwatched).mpr rfl)
    exact ((hreports x).mpr ((hone x hx hsame).trans hl.symm)).1

/-! Two groups that name the same membership directory. -/
namespace SharedMembership

/-- The main file. -/
def text : Text := "[groups.a]
membership = \"/members\"
source_root = \"/data\"
source = \"\x7bname\x7d\"
target_root = \"/view/a\"
target = \"\x7bname\x7d\"
[groups.b]
membership = \"/members\"
source_root = \"/data\"
source = \"\x7bname\x7d\"
target_root = \"/view/b\"
target = \"\x7bname\x7d\"
".toList

def rawGroup (targetRoot : String) : RawGroup where
  membership := "/members".toList
  sourceRoot := "/data".toList
  source := "\x7bname\x7d".toList
  targetRoot := targetRoot.toList
  target := "\x7bname\x7d".toList
  readOnly := none
  noexec := none
  nosymfollow := none

def rawFile : RawFile := ⟨none,((∅ : ExtTreeMap Text RawGroup).insert ['a'] (rawGroup "/view/a")).insert
  ['b'] (rawGroup "/view/b"),∅⟩

def env : LoadEnv :=
  {TargetBeneath.env with
    openFile := fun _ _ => .ok ⟨.ok ⟨0,0o644,true,false⟩,.ok text⟩
    parse := fun s => if s = text then .ok rawFile else .error "no such document"}

def a : Name := ⟨['a'],by decide⟩
def b : Name := ⟨['b'],by decide⟩

/-- The two groups, as they are validated. -/
def groupOf (name : Name) (targetRoot : String) (h : (validateGroup name (rawGroup targetRoot)
    TargetBeneath.options.mainFile).1.isSome = true) : GroupConfig :=
  (validateGroup name (rawGroup targetRoot) TargetBeneath.options.mainFile).1.get h

def configA : GroupConfig := groupOf a "/view/a" (by decide +kernel)
def configB : GroupConfig := groupOf b "/view/b" (by decide +kernel)

theorem load_lists : (load env TargetBeneath.options).toOption.map
    (fun l => (l.config.groups.toList,l.config.groupSets.toList,l.config.daemon)) =
      some ([(a,configA),(b,configB)],[],.default) := by
  decide +kernel

theorem load_isSome : (load env TargetBeneath.options).toOption.isSome = true := by
  rw [← Option.isSome_map,load_lists]
  rfl

def loaded : Loaded := (load env TargetBeneath.options).toOption.get load_isSome

theorem load_eq : load env TargetBeneath.options = .ok loaded :=
  Program.ok_of_toOption (Option.some_get _).symm

theorem loaded_lists : loaded.config.groups.toList = [(a,configA),(b,configB)] ∧
    loaded.config.groupSets.toList = [] ∧ loaded.config.daemon = .default := by
  have hload := load_eq
  generalize loaded = l at hload ⊢
  have h := Prod.ext_iff.mp (Program.eq_of_toOption_map load_lists hload)
  exact ⟨h.1,Prod.ext_iff.mp h.2⟩

/-- Every directory opens. -/
def openEnv : OpenEnv Unit := ⟨fun _ => .ok (),fun _ => .ok ()⟩

def runtime : Runtime Unit := (Runtime.empty.insertGroup ⟨configA,()⟩).insertGroup ⟨configB,()⟩

theorem openGroup_eq (g : GroupConfig) (rt : Runtime Unit) :
    openGroup openEnv g rt = .ok (rt.insertGroup ⟨g,()⟩) := rfl

theorem open_eq : Runtime.open openEnv loaded.config = .ok runtime := by
  unfold Runtime.open runtime
  rw [loaded_lists.1,loaded_lists.2.1]
  simp only [List.foldlM_cons,List.foldlM_nil,openGroup_eq]
  rfl

/-- All watched paths lead to one directory, which has the descriptor 1. -/
def sys : InotifySys Unit := ⟨fun _ _ _ => (.ok 1,()),fun _ _ => (),fun _ => "an error"⟩

def watcher : Watcher := (Watcher.new sys runtime ()).1.toOption.get (by decide +kernel)

theorem new_eq : Watcher.new sys runtime () = (.ok watcher,()) := by
  have h : (Watcher.new sys runtime ()).1 = .ok watcher :=
    Program.ok_of_toOption (Option.some_get _).symm
  exact Prod.ext h (Subsingleton.elim _ _)

/-- The directory is deleted. -/
def event : InotifyEvent := ⟨1,false,true,false,false,false⟩

theorem readsSelf : Watcher.ReadsSelf 1 [event] := ⟨event,by simp,rfl,rfl,rfl⟩

def groupA : GroupId := .statically a
def groupB : GroupId := .statically b

/-- The configuration loads with two groups of the directory, and only one is reported. -/
theorem lost_once : load env TargetBeneath.options = .ok loaded ∧
    Runtime.open openEnv loaded.config = .ok runtime ∧
    Watcher.new sys runtime () = (.ok watcher,()) ∧
    Assigned sys runtime () (.group groupA) 1 ∧ Assigned sys runtime () (.group groupB) 1 ∧
    Watcher.ReadsSelf 1 [event] ∧
    ∃ changes w, watcher.drain [event] none = .ok (changes,w) ∧
      ¬changes.Reports (.group groupA) ∧ changes.Reports (.group groupB) := by
  refine ⟨load_eq,open_eq,new_eq,?_,?_,readsSelf,
    watcher.classify [event],_,rfl,?_,?_⟩
  · unfold Assigned
    decide +kernel
  · unfold Assigned
    decide +kernel
  · decide +kernel
  · decide +kernel

theorem assigned_one {x : Watched} {a : ℕ} (h : Assigned sys runtime () x a) : a = 1 := by
  have hall : ∀ entry ∈ descriptors sys (configured runtime) (), entry.2 = 1 := by decide +kernel
  exact hall (x,a) h

theorem lost_reported_iff_run : (∀ x ∈ (configured runtime).map Prod.fst, () = () →
      (watcher.classify [event]).Reports x) ↔
    ∀ x ∈ (configured runtime).map Prod.fst, () = () → x = .group groupA :=
  lost_reported_iff open_eq new_eq (fun _ => ())
    (fun ha hb => by rw [assigned_one ha,assigned_one hb]; exact ⟨fun _ => rfl,fun _ => rfl⟩)
    (by unfold Assigned; decide +kernel) .refl rfl readsSelf

end SharedMembership
end Byssus
