import Byssus.Authority
import Byssus.DegradedGroups
import Byssus.Declarations
import Byssus.LostGroups

/-! The parts of the daemon belong together.  In every state of a run there is one accepted
configuration: the opened groups and sets are those it declares, found groups are bound from its
sets, every watch is for one of them, and a pass mounts between their roots only. -/
namespace Byssus

open Std

variable {D H K : Type}

theorem GroupId.statically_inj {a b : Name} : statically a = statically b ↔ a = b := by
  simp [statically]

/-- The group is declared, or made for a directory of a declared set. -/
inductive Config.Declares (config : Config) : GroupConfig → Prop
  | static {name : Name} {g : GroupConfig} (h : config.groups[name]? = some g) : config.Declares g
  | found {name : Name} {set : GroupSetConfig} {path : List Name} {h : path.length = set.depth}
      {g : GroupConfig} (hset : config.groupSets[name]? = some set) (hg : set.group path h = .ok g) :
      config.Declares g

/-- What may be watched: declared groups and sets, and directories in the sets. -/
inductive Config.Watches (config : Config) : Watched → Prop
  | static {name : Name} (h : name ∈ config.groups) : config.Watches (.group (.statically name))
  | inSet {id : GroupId} {name : Name} (h : name ∈ config.groupSets) (hid : id.set = some name) :
      config.Watches (.group id)
  | setRoot {name : Name} (h : name ∈ config.groupSets) : config.Watches (.setRoot name)

/-- Each group and set is filed under its name. -/
structure Config.Keyed (config : Config) : Prop where
  groups : ∀ (name : Name) (g : GroupConfig), config.groups[name]? = some g →
    g.name = .statically name
  sets : ∀ (name : Name) (set : GroupSetConfig), config.groupSets[name]? = some set →
    set.name = name

theorem validateGroup_name {name : Name} {raw : RawGroup} {path : PathBuf} {g : GroupConfig}
    (h : (validateGroup name raw path).1 = some g) : g.name = .statically name := by
  unfold validateGroup at h
  simp only at h
  split at h <;> cases h
  rfl

theorem load_keyed {env : LoadEnv} {options : LoadOptions} {loaded : Loaded}
    (h : load env options = .ok loaded) : loaded.config.Keyed := by
  obtain ⟨-,⟨_,hgroups⟩,_,hsets⟩ := load_collected h
  refine ⟨fun name g hg => ?_,fun name set hset => ?_⟩
  · obtain ⟨file,-,raw,-,hv⟩ := hgroups.get.mp hg
    exact validateGroup_name hv
  · obtain ⟨file,-,raw,-,hv⟩ := hsets.get.mp hset
    exact (validateGroupSet_some hv).1.name

/-! ### What is opened -/

/-- What is open is what the configuration declares. -/
structure Runtime.Opens (runtime : Runtime H) (config : Config) : Prop where
  groups : ∀ name : Name, runtime.groups[GroupId.statically name]?.map GroupRuntime.config =
    config.groups[name]?
  sets : ∀ name : Name, runtime.sets[name]?.map SetRuntime.config = config.groupSets[name]?
  declared : ∀ (id : GroupId) (g : GroupRuntime H), runtime.groups[id]? = some g →
    config.Declares g.config
  intermediates : ∀ (id : GroupId) (path : AbsPath), runtime.intermediates[id]? = some path →
    ∃ name ∈ config.groupSets, id.set = some name

theorem openGroup_ok {env : OpenEnv H} {g : GroupConfig} {runtime runtime' : Runtime H}
    (h : openGroup env g runtime = .ok runtime') : ∃ dir, runtime' = runtime.insertGroup ⟨g,dir⟩ := by
  unfold openGroup at h
  cases hd : openDirs env (.group g.name) g.sourceRoot g.targetRoot "membership" g.membership with
  | error e => rw [hd] at h; cases h
  | ok dir => rw [hd] at h; cases h; exact ⟨dir,rfl⟩

theorem openSet_ok {env : OpenEnv H} {s : GroupSetConfig} {runtime runtime' : Runtime H}
    (h : openSet env s runtime = .ok runtime') : ∃ dir, runtime' = runtime.insertSet ⟨s,dir⟩ := by
  unfold openSet at h
  cases hd : openDirs env (.set s.name) s.sourceRoot s.targetRoot "membership_root"
      s.membershipRoot with
  | error e => rw [hd] at h; cases h
  | ok dir => rw [hd] at h; cases h; exact ⟨dir,rfl⟩

/-- The groups so far are open. -/
structure OpenedGroups (done : List (Name × GroupConfig)) (runtime : Runtime H) : Prop where
  sets : runtime.sets = ∅
  intermediates : runtime.intermediates = ∅
  opened : ∀ e ∈ done, runtime.groups[e.2.name]?.map GroupRuntime.config = some e.2
  origin : ∀ (id : GroupId) (g : GroupRuntime H), runtime.groups[id]? = some g →
    ∃ e ∈ done, g.config = e.2

theorem OpenedGroups.push {done : List (Name × GroupConfig)} {runtime : Runtime H}
    (h : OpenedGroups done runtime) {e : Name × GroupConfig}
    (he : ∀ e' ∈ done, e'.2.name = e.2.name → e'.2 = e.2) (dir : H) :
    OpenedGroups (done++[e]) (runtime.insertGroup ⟨e.2,dir⟩) := by
  have hget : ∀ id : GroupId, (runtime.insertGroup ⟨e.2,dir⟩).groups[id]? =
      if e.2.name = id then some ⟨e.2,dir⟩ else runtime.groups[id]? := by
    intro id
    simp [Runtime.insertGroup,ExtTreeMap.getElem?_insert,LawfulEqCmp.compare_eq_iff_eq]
  refine ⟨h.sets,h.intermediates,?_,?_⟩
  · intro e' he'
    rw [hget]
    rcases List.mem_append.mp he' with he' | he'
    · split_ifs with hname
      · rw [he e' he' hname.symm]
        rfl
      · exact h.opened e' he'
    · rw [List.mem_singleton.mp he',if_pos rfl]
      rfl
  · intro id g hg
    rw [hget] at hg
    split_ifs at hg
    · cases hg
      exact ⟨e,by simp,rfl⟩
    · obtain ⟨e',he',hc⟩ := h.origin id g hg
      exact ⟨e',by simp [he'],hc⟩

theorem openedGroups {env : OpenEnv H} {config : Config} (hk : config.Keyed) {runtime : Runtime H}
    (h : config.groups.toList.foldlM (fun runtime entry => openGroup env entry.2 runtime)
      Runtime.empty = .ok runtime) : OpenedGroups config.groups.toList runtime := by
  have hnames : ∀ e ∈ config.groups.toList, ∀ e' ∈ config.groups.toList,
      e'.2.name = e.2.name → e'.2 = e.2 := by
    intro e he e' he' hname
    have hget := ExtTreeMap.mem_toList_iff_getElem?_eq_some.mp he
    have hget' := ExtTreeMap.mem_toList_iff_getElem?_eq_some.mp he'
    rw [hk.groups _ _ hget,hk.groups _ _ hget',GroupId.statically_inj] at hname
    rw [hname,hget] at hget'
    exact (Option.some.inj hget').symm
  refine Program.foldlM_ok_prefix (P := OpenedGroups) ⟨rfl,rfl,by simp,by simp [Runtime.empty]⟩ ?_ h
  intro done e rt rt' hpre hrt hopen
  have hmem : ∀ e' ∈ done++[e], e' ∈ config.groups.toList := fun e' he' => hpre.subset he'
  obtain ⟨dir,rfl⟩ := openGroup_ok hopen
  exact hrt.push (fun e' he' => hnames e (hmem e (by simp)) e' (hmem e' (by simp [he']))) dir

/-- The sets so far are open too, and the rest is as before. -/
structure OpenedSets (start : Runtime H) (done : List (Name × GroupSetConfig))
    (runtime : Runtime H) : Prop where
  groups : runtime.groups = start.groups
  intermediates : runtime.intermediates = start.intermediates
  opened : ∀ e ∈ done, runtime.sets[e.2.name]?.map SetRuntime.config = some e.2
  origin : ∀ (name : Name) (s : SetRuntime H), runtime.sets[name]? = some s →
    ∃ e ∈ done, s.config = e.2

theorem openedSets {env : OpenEnv H} {config : Config} (hk : config.Keyed)
    {start runtime : Runtime H} (hstart : start.sets = ∅)
    (h : config.groupSets.toList.foldlM (fun runtime entry => openSet env entry.2 runtime)
      start = .ok runtime) : OpenedSets start config.groupSets.toList runtime := by
  have hnames : ∀ e ∈ config.groupSets.toList, ∀ e' ∈ config.groupSets.toList,
      e'.2.name = e.2.name → e'.2 = e.2 := by
    intro e he e' he' hname
    have hget := ExtTreeMap.mem_toList_iff_getElem?_eq_some.mp he
    have hget' := ExtTreeMap.mem_toList_iff_getElem?_eq_some.mp he'
    rw [hk.sets _ _ hget,hk.sets _ _ hget'] at hname
    rw [hname,hget] at hget'
    exact (Option.some.inj hget').symm
  refine Program.foldlM_ok_prefix (P := OpenedSets start)
    ⟨rfl,rfl,by simp,by simp [hstart]⟩ ?_ h
  intro done e rt rt' hpre hrt hopen
  have hmem : ∀ e' ∈ done++[e], e' ∈ config.groupSets.toList := fun e' he' => hpre.subset he'
  obtain ⟨dir,rfl⟩ := openSet_ok hopen
  have hget : ∀ name : Name, (rt.insertSet ⟨e.2,dir⟩).sets[name]? =
      if e.2.name = name then some ⟨e.2,dir⟩ else rt.sets[name]? := by
    intro name
    simp [Runtime.insertSet,ExtTreeMap.getElem?_insert,LawfulEqCmp.compare_eq_iff_eq]
  refine ⟨hrt.groups,hrt.intermediates,?_,?_⟩
  · intro e' he'
    rw [hget]
    rcases List.mem_append.mp he' with he' | he'
    · split_ifs with hname
      · rw [hnames e (hmem e (by simp)) e' (hmem e' (by simp [he'])) hname.symm]
        rfl
      · exact hrt.opened e' he'
    · rw [List.mem_singleton.mp he',if_pos rfl]
      rfl
  · intro name s hs
    rw [hget] at hs
    split_ifs at hs
    · cases hs
      exact ⟨e,by simp,rfl⟩
    · obtain ⟨e',he',hc⟩ := hrt.origin name s hs
      exact ⟨e',by simp [he'],hc⟩

theorem open_opens {env : OpenEnv H} {config : Config} (hk : config.Keyed) {runtime : Runtime H}
    (h : Runtime.open env config = .ok runtime) : runtime.Opens config := by
  unfold Runtime.open at h
  cases hg : config.groups.toList.foldlM (fun runtime entry => openGroup env entry.2 runtime)
      Runtime.empty with
  | error e => rw [hg] at h; cases h
  | ok start =>
    rw [hg] at h
    have hgroups := openedGroups hk hg
    have hsets := openedSets hk hgroups.sets h
    refine ⟨fun name => ?_,fun name => ?_,fun id g hid => ?_,fun id path hid => ?_⟩
    · rw [hsets.groups]
      apply Option.ext
      intro c
      constructor
      · intro hc
        obtain ⟨g,hget,rfl⟩ := Option.map_eq_some_iff.mp hc
        obtain ⟨e,he,hconfig⟩ := hgroups.origin _ _ hget
        have hentry := ExtTreeMap.mem_toList_iff_getElem?_eq_some.mp he
        have hname := start.groups_keyed _ _ hget
        rw [hconfig,hk.groups _ _ hentry,GroupId.statically_inj] at hname
        rw [hconfig,← hname]
        exact hentry
      · intro hc
        have hopened := hgroups.opened (name,c) (ExtTreeMap.mem_toList_iff_getElem?_eq_some.mpr hc)
        rwa [hk.groups _ _ hc] at hopened
    · apply Option.ext
      intro c
      constructor
      · intro hc
        obtain ⟨s,hget,rfl⟩ := Option.map_eq_some_iff.mp hc
        obtain ⟨e,he,hconfig⟩ := hsets.origin _ _ hget
        have hentry := ExtTreeMap.mem_toList_iff_getElem?_eq_some.mp he
        have hname := runtime.sets_keyed _ _ hget
        rw [hconfig,hk.sets _ _ hentry] at hname
        rw [hconfig,← hname]
        exact hentry
      · intro hc
        have hopened := hsets.opened (name,c) (ExtTreeMap.mem_toList_iff_getElem?_eq_some.mpr hc)
        rwa [hk.sets _ _ hc] at hopened
    · rw [hsets.groups] at hid
      obtain ⟨e,he,hconfig⟩ := hgroups.origin id g hid
      rw [hconfig]
      exact .static (ExtTreeMap.mem_toList_iff_getElem?_eq_some.mp he)
    · rw [hsets.intermediates,hgroups.intermediates] at hid
      simp at hid

/-- Discovery keeps what is declared, and adds groups of declared sets. -/
theorem Runtime.Opens.discover {runtime : Runtime H} {config : Config} (h : runtime.Opens config)
    (env : ScanEnv H) (skip : Finset Name) : (runtime.discover env skip).1.Opens config where
  groups := by
    intro name
    rw [← h.groups name]
    congr 1
    apply Option.ext
    intro g
    rw [discover_groups]
    constructor
    · rintro (⟨-,hg⟩ | ⟨hfound,hname⟩)
      · exact hg
      · obtain ⟨s,-,hs⟩ := hfound.set
        rw [hname] at hs
        cases hs
    · exact fun hg => .inl ⟨rfl,hg⟩
  sets := by
    intro name
    rw [discover_sets]
    exact h.sets name
  declared := by
    intro id g hg
    rcases discover_groups.mp hg with ⟨-,hg⟩ | ⟨⟨s,set,hset,-,-,path,-,hlen,hgroup⟩,-⟩
    · exact h.declared id g hg
    · have hconfig := h.sets s
      rw [hset] at hconfig
      exact .found hconfig.symm hgroup
  intermediates := by
    intro id path hid
    obtain ⟨s,set,names,hset,-,-,-,-,rfl,-⟩ := discover_intermediates.mp hid
    have hconfig := h.sets s
    rw [hset] at hconfig
    exact ⟨s,ExtTreeMap.mem_iff_isSome_getElem?.mpr (by rw [← hconfig]; rfl),rfl⟩

/-! ### What is watched -/

namespace Watcher

/-- All labels of the watch table are among `P`. -/
def Among (P : Watched → Prop) (w : Watcher) : Prop :=
  ∀ (wd : ℕ) (what : Watched), w.watches[wd]? = some what → P what

variable {sys : InotifySys K} {P : Watched → Prop} {w : Watcher} {k : K}

theorem release_among (wd : ℕ) (h : w.Among P) : (release sys wd (w,k)).1.Among P := by
  simp only [release]
  split_ifs
  · exact h
  · intro wd' what hwhat
    rw [ExtTreeMap.getElem?_erase] at hwhat
    split_ifs at hwhat
    exact h wd' what hwhat
  · exact h

theorem forget_among (id : GroupId) (h : w.Among P) : (forget sys id (w,k)).1.Among P := by
  simp only [forget]
  cases w.setGroups[id]? with
  | none => exact h
  | some wd => exact release_among wd h

theorem replace_among (id : GroupId) (wd : ℕ) (h : w.Among P) :
    (replace sys id wd (w,k)).1.Among P := by
  simp only [replace]
  cases w.setGroups[id]? with
  | none => exact h
  | some old =>
    simp only
    split_ifs
    · exact release_among old h
    · exact h

theorem insert_among {wd : ℕ} {what : Watched} (h : w.Among P) (hp : P what) :
    (w.watch wd what).Among P := by
  intro wd' what' hget
  simp only [watch,ExtTreeMap.getElem?_insert] at hget
  split_ifs at hget
  · cases hget
    exact hp
  · exact h wd' what' hget

theorem label_among {wd : ℕ} {what : Watched} (h : w.Among P) (hp : P what) :
    (label wd what w).Among P := by
  unfold label
  split_ifs
  · exact h
  · exact insert_among h hp

theorem watchDir_among {entry : GroupId × AbsPath} (h : w.Among P) (hp : P (.group entry.1)) :
    (watchDir sys (w,k) entry).1.Among P := by
  unfold watchDir
  obtain ⟨result,k'⟩ := sys.addWatch entry.2 true k
  cases result with
  | ok wd => exact label_among (replace_among entry.1 wd h) hp
  | error e =>
    cases e with
    | noent => exact forget_among entry.1 h
    | other code => exact h

/-- After a synchronisation the labels are old ones, and those of the current directories. -/
theorem sync_among {runtime : Runtime H} (h : w.Among P)
    (hdirs : ∀ id ∈ currentDirs runtime, P (.group id)) : (sync sys runtime (w,k)).1.Among P := by
  unfold sync
  refine Lists.foldl_induction_prefix (P := fun _ (acc : Watcher × K) => acc.1.Among P) _ ?_ ?_
  · exact Lists.foldl_induction (P := fun _ (acc : Watcher × K) => acc.1.Among P) h
      (fun _ id acc hacc => forget_among (k := acc.2) id hacc) _
  · intro done entry acc hpre hacc
    refine watchDir_among (k := acc.2) hacc (hdirs entry.1 ?_)
    have hmem : entry ∈ (currentDirs runtime).toList := hpre.subset (by simp)
    rw [ExtTreeMap.mem_iff_isSome_getElem?,ExtTreeMap.mem_toList_iff_getElem?_eq_some.mp hmem]
    rfl

theorem watchRoots_among {runtime : Runtime H} {k' : K}
    (hconfigured : ∀ e ∈ configured runtime, P e.1)
    (h : watchRoots sys runtime k = (.ok w,k')) : w.Among P := by
  obtain ⟨message,heq⟩ := @watchRoots_eq H K sys runtime k
  rw [h] at heq
  obtain ⟨hfst,hwatches⟩ := foldl_watchConfigured message _ _ _ _ _ heq.symm
  have hall : ∀ x ∈ descriptors sys (configured runtime) k, P x.1 := by
    intro x hx
    have hmem := List.mem_map_of_mem (f := Prod.fst) hx
    rw [hfst] at hmem
    obtain ⟨e,he,hex⟩ := List.mem_map.mp hmem
    exact hex ▸ hconfigured e he
  intro wd what hwhat
  rw [hwatches] at hwhat
  generalize descriptors sys (configured runtime) k = l at hall hwhat
  induction l using List.reverseRecOn with
  | nil => simp [empty] at hwhat
  | append_singleton done x ih =>
    rw [List.foldl_append] at hwhat
    simp only [List.foldl_cons,List.foldl_nil,ExtTreeMap.getElem?_insert] at hwhat
    split_ifs at hwhat
    · cases hwhat
      exact hall x (by simp)
    · exact ih (fun y hy => hall y (by simp [hy])) hwhat

theorem new_among {runtime : Runtime H} {k' : K} (hconfigured : ∀ e ∈ configured runtime, P e.1)
    (hdirs : ∀ id ∈ currentDirs runtime, P (.group id))
    (h : new sys runtime k = (.ok w,k')) : w.Among P := by
  unfold new at h
  rcases hroots : watchRoots sys runtime k with ⟨e | w₀,k₁⟩
  · rw [hroots] at h
    cases h
  · rw [hroots] at h
    cases h
    exact sync_among (watchRoots_among hconfigured hroots) hdirs

theorem drain_among {w' : Watcher} {events : List InotifyEvent} {failed : Option Errno}
    {changes : Changes} (h : w.Among P) (hd : w.drain events failed = .ok (changes,w')) :
    w'.Among P := by
  unfold drain at hd
  split at hd
  · cases hd
  · cases hd
    intro wd what hwhat
    rw [ExtTreeMap.getElem?_filter'] at hwhat
    exact h wd what (Option.filter_eq_some_iff.mp hwhat).1

theorem currentDirs_mem {runtime : Runtime H} {id : GroupId} (h : id ∈ currentDirs runtime) :
    (∃ g, runtime.groups[id]? = some g ∧ id.set.isSome = true) ∨
      ∃ path, runtime.intermediates[id]? = some path := by
  have hfold : ∀ {α : Type} (key : α → GroupId) (val : α → AbsPath) (l : List α)
      (m : ExtTreeMap GroupId AbsPath), id ∈ l.foldl (fun m a => m.insert (key a) (val a)) m →
      id ∈ m ∨ ∃ a ∈ l, key a = id := by
    intro α key val l m
    induction l using List.reverseRecOn with
    | nil => exact .inl
    | append_singleton done a ih =>
      rw [List.foldl_append]
      intro hid
      simp only [List.foldl_cons,List.foldl_nil,ExtTreeMap.mem_insert] at hid
      rcases hid with hid | hid
      · exact .inr ⟨a,by simp,LawfulEqCmp.eq_of_compare hid⟩
      · rcases ih hid with hid | ⟨a',ha',hk⟩
        · exact .inl hid
        · exact .inr ⟨a',by simp [ha'],hk⟩
  unfold currentDirs at h
  rcases hfold Prod.fst Prod.snd _ _ h with h | ⟨e,he,rfl⟩
  · rcases hfold Prod.fst (fun e : GroupId × GroupRuntime H => e.2.config.membership) _ _ h with h | ⟨e,he,rfl⟩
    · simp at h
    · obtain ⟨hmem,hset⟩ := List.mem_filter.mp he
      exact .inl ⟨e.2,ExtTreeMap.mem_toList_iff_getElem?_eq_some.mp hmem,hset⟩
  · exact .inr ⟨e.2,ExtTreeMap.mem_toList_iff_getElem?_eq_some.mp he⟩

end Watcher

/-! ### Runs -/

section
variable {runtime : Runtime H} {config : Config}

theorem Runtime.Opens.set_mem (h : runtime.Opens config) {name : Name} {s : SetRuntime H}
    (hs : runtime.sets[name]? = some s) : name ∈ config.groupSets := by
  have hconfig := h.sets name
  rw [hs] at hconfig
  exact ExtTreeMap.mem_iff_isSome_getElem?.mpr (by rw [← hconfig]; rfl)

/-- An opened group may be watched. -/
theorem Runtime.Opens.watches (h : runtime.Opens config) (hk : config.Keyed) {id : GroupId}
    {g : GroupRuntime H} (hg : runtime.groups[id]? = some g) : config.Watches (.group id) := by
  have hname := runtime.groups_keyed id g hg
  have hmem : ∀ {α : Type} {m : ExtTreeMap Name α} {name : Name} {a : α}, m[name]? = some a →
      name ∈ m := fun ha => ExtTreeMap.mem_iff_isSome_getElem?.mpr (by rw [ha]; rfl)
  cases h.declared id g hg with
  | static hc =>
    rw [← hname,hk.groups _ _ hc]
    exact .static (hmem hc)
  | found hset hmade =>
    refine .inSet (hmem hset) ?_
    rw [← hname,(GroupSetConfig.group_ok hmade).2.2.1,hk.sets _ _ hset]
    rfl

theorem Runtime.Opens.configured (h : runtime.Opens config) (hk : config.Keyed) :
    ∀ e ∈ configured runtime, config.Watches e.1 := by
  intro e he
  rcases List.mem_append.mp he with he | he
  · obtain ⟨entry,hentry,rfl⟩ := List.mem_map.mp he
    exact h.watches hk (ExtTreeMap.mem_toList_iff_getElem?_eq_some.mp (List.mem_filter.mp hentry).1)
  · obtain ⟨entry,hentry,rfl⟩ := List.mem_map.mp he
    exact .setRoot (h.set_mem (ExtTreeMap.mem_toList_iff_getElem?_eq_some.mp hentry))

theorem Runtime.Opens.currentDirs (h : runtime.Opens config) (hk : config.Keyed) :
    ∀ id ∈ Watcher.currentDirs runtime, config.Watches (.group id) := by
  intro id hid
  rcases Watcher.currentDirs_mem hid with ⟨g,hg,-⟩ | ⟨path,hpath⟩
  · exact h.watches hk hg
  · obtain ⟨name,hname,hset⟩ := h.intermediates id path hpath
    exact .inSet hname hset

end

/-- The daemon runs with one accepted configuration. -/
structure Daemon.Coherent (d : Daemon H D) : Prop where
  accepted : ∃ env loaded, load env d.options = .ok loaded ∧ loaded.config = d.config
  opens : d.runtime.Opens d.config
  watches : d.watcher.Among d.config.Watches

namespace Daemon.Coherent

variable {d : Daemon H D}

theorem keyed (h : d.Coherent) : d.config.Keyed := by
  obtain ⟨env,loaded,hload,hconfig⟩ := h.accepted
  rw [← hconfig]
  exact load_keyed hload

/-- Only these parts matter. -/
theorem congr {d' : Daemon H D} (h : d.Coherent) (hoptions : d'.options = d.options)
    (hconfig : d'.config = d.config) (hruntime : d'.runtime = d.runtime)
    (hwatcher : d'.watcher.Among d.config.Watches) : d'.Coherent := by
  refine ⟨?_,?_,?_⟩
  · rw [hoptions,hconfig]
    exact h.accepted
  · rw [hconfig,hruntime]
    exact h.opens
  · rw [hconfig]
    exact hwatcher

theorem started {options : LoadOptions} {env : LoadEnv} {loaded : Loaded}
    (hload : load env options = .ok loaded) {openEnv : OpenEnv H} {runtime : Runtime H}
    (hopen : Runtime.open openEnv loaded.config = .ok runtime) {sys : InotifySys K} {k k' : K}
    {watcher : Watcher} (hnew : Watcher.new sys runtime k = (.ok watcher,k'))
    (hoptions : d.options = options) (hconfig : d.config = loaded.config)
    (hruntime : d.runtime = runtime) (hwatcher : d.watcher = watcher) : d.Coherent := by
  have hk := load_keyed hload
  have hopens := open_opens hk hopen
  refine ⟨⟨env,loaded,by rw [hoptions]; exact hload,hconfig.symm⟩,?_,?_⟩
  · rw [hconfig,hruntime]
    exact hopens
  · rw [hconfig,hwatcher]
    exact Watcher.new_among (hopens.configured hk) (hopens.currentDirs hk) hnew

variable {sys : InotifySys K}

theorem reload (h : d.Coherent) (a : ReloadAnswers H K) : (d.reload sys a).1.Coherent := by
  rcases d.reload_cases sys a with ⟨e,he⟩ | ⟨loaded,runtime,watcher,hload,hopen,hnew,he⟩
  · rw [he]
    exact h.congr rfl rfl rfl h.watches
  · rw [he]
    have hpair : Watcher.new sys runtime a.inotify =
        (.ok watcher,(Watcher.new sys runtime a.inotify).2) := Prod.ext hnew rfl
    exact started hload hopen hpair rfl rfl rfl rfl

theorem handleInotify (h : d.Coherent) {events : List InotifyEvent} {failed : Option Errno}
    {now : ℕ} {d' : Daemon H D} {changes : Changes}
    (hd : d.handleInotify events failed now = .ok (d',changes)) : d'.Coherent := by
  obtain ⟨watcher,hdrain,rfl⟩ := Daemon.handleInotify_ok hd
  have hwatches := Watcher.drain_among h.watches hdrain
  split_ifs
  · exact h.congr rfl rfl rfl hwatches
  · exact h.congr rfl rfl rfl hwatches

theorem pass [DecidableEq D] (h : d.Coherent) (a : PassAnswers H K D) (now : ℕ) :
    (d.pass sys a now).1.Coherent := by
  have hopens : (discoverAndObserve a.env d.runtime d.world.state d.degraded).1.Opens d.config :=
    h.opens.discover _ _
  obtain ⟨degraded,unreadable,hframe⟩ := Daemon.foldl_recordNote_frame
    (d.runPass sys a).2.observed.notes {(d.runPass sys a).1 with unreadable := ∅}
  unfold Daemon.pass
  simp only [hframe]
  exact ⟨h.accepted,hopens,Watcher.sync_among h.watches (hopens.currentDirs h.keyed)⟩

end Daemon.Coherent

theorem run_coherent [DecidableEq D] {sys : InotifySys K} (startup : Startup sys H)
    (world : World D) (unique : Bool) (clock : ℕ) (a : PassAnswers H K D)
    (actions : List (LoopAction H K D)) :
    ((Loop.start startup world unique clock a).run sys actions).daemon.Coherent := by
  have hpair : Watcher.new sys startup.runtime startup.inotify =
      (.ok startup.watcher,(Watcher.new sys startup.runtime startup.inotify).2) :=
    Prod.ext startup.new_eq rfl
  apply Loop.run_induction (P := fun l => l.daemon.Coherent)
  · exact (Daemon.Coherent.started startup.load_eq startup.open_eq hpair rfl rfl rfl rfl).pass a _
  · intro l l' hl hs
    cases hs with
    | wait elapsed ended => exact hl
    | reload a => exact hl.reload a
    | drain h => exact hl.handleInotify h
    | pass trigger a _ =>
      have hstart : ({l.daemon with pending := none} : Daemon H D).Coherent :=
        hl.congr rfl rfl rfl hl.watches
      exact hstart.pass a _

/-- A mount of the next pass is for a group of the accepted configuration, between its roots. -/
theorem Daemon.Coherent.plan_mount {d : Daemon H D} (h : d.Coherent) {env : PassEnv H}
    {m : DesiredMount} (hm : Action.mount m ∈
      (plan (passInput env d.runtime d.world.state d.degraded)).steps.map Step.action) :
    ∃ g, d.config.Declares g ∧ g.name = m.key.group ∧
      m.From g.sourceRoot g.source g.targetRoot g.target g.attrs [] := by
  obtain ⟨-,g,found,hpresent,-,-,hok⟩ := mem_desired.mp ((plan_mount_iff _ m).mp hm).1.mem
  have hg := discover_present.mpr hpresent
  exact ⟨g.config,(h.opens.discover _ _).declared _ _ hg,
    Runtime.groups_keyed _ _ _ hg,desiredMount_from hok⟩

/-- In every state of a run there is one accepted configuration to which all that is open and
watched belongs, and whatever a pass finds, it mounts for groups of this configuration only: a
declared group or one that a directory of a declared set makes, from its source root to its target
root, along its templates and with its attributes. -/
theorem run_mounts_configured [DecidableEq D] {sys : InotifySys K} (startup : Startup sys H)
    (world : World D) (unique : Bool) (clock : ℕ) (a : PassAnswers H K D)
    (actions : List (LoopAction H K D)) :
    let d := ((Loop.start startup world unique clock a).run sys actions).daemon
    d.Coherent ∧ ∀ (p : PassAnswers H K D) (now : ℕ) (m : DesiredMount),
      Action.mount m ∈ (d.pass sys p now).2.plan.steps.map Step.action →
        ∃ g, d.config.Declares g ∧ g.name = m.key.group ∧
          m.From g.sourceRoot g.source g.targetRoot g.target g.attrs [] := by
  intro d
  have hd : d.Coherent := run_coherent startup world unique clock a actions
  exact ⟨hd,fun p now m hm => hd.plan_mount hm⟩

end Byssus
