import Byssus.Coherent
import Byssus.Convergence
import Byssus.Interpolation

/-! Which accepted members can have targets that are equal or lie one beneath the other.
Collisions are found among targets with the same root and the same path.  The absolute paths
are apart where root and depth are the same; of other groups nothing is compared, so it is up
to their templates. -/
namespace Byssus

open Std

/-- The components of `target_root` joined with the interpolated target. -/
def DesiredMount.absoluteTarget (d : DesiredMount) : List Text :=
  d.target.root.components++d.target.path.splitOn '/'

/-- Neither path is the other or lies beneath it. -/
def Apart (xs ys : List Text) : Prop := ¬xs <+: ys ∧ ¬ys <+: xs

theorem Apart.symm {xs ys : List Text} (h : Apart xs ys) : Apart ys xs := ⟨h.2,h.1⟩

theorem Apart.append {xs ys : List Text} (h : Apart xs ys) (us vs : List Text) :
    Apart (xs++us) (ys++vs) := by
  have hone : ∀ {as bs cs ds : List Text}, as++cs <+: bs++ds → as <+: bs ∨ bs <+: as := by
    intro as bs cs ds hp
    have has := (List.prefix_append as cs).trans hp
    exact List.prefix_or_prefix_of_prefix has (List.prefix_append bs ds)
  constructor
  · intro hp
    rcases hone hp with hp | hp
    · exact h.1 hp
    · exact h.2 hp
  · intro hp
    rcases hone hp with hp | hp
    · exact h.2 hp
    · exact h.1 hp

/-- Paths of one length are apart unless they are equal. -/
theorem Apart.of_length {xs ys : List Text} (hl : xs.length = ys.length) (hne : xs ≠ ys) :
    Apart xs ys :=
  ⟨fun h => hne (h.eq_of_length hl),fun h => hne (h.eq_of_length hl.symm).symm⟩

/-- The target of a member has the root of the group, and as many components as the group's
template. -/
theorem desiredMount_target {id : GroupId} {g : GroupConfig} {n : Name} {d : DesiredMount}
    (h : desiredMount id g n = .ok d) : d.target.root = g.targetRoot ∧
      (d.target.path.splitOn '/').length = g.target.components.length := by
  obtain ⟨-,-,ht,hroot⟩ := desiredMount_ok h
  refine ⟨hroot,?_⟩
  rw [((Template.interpolates g.targetBound n).joined _ ht).2.1,List.length_map]

/-- Groups with the same target root, and templates of as many components; those of one set
are. -/
structure GroupConfig.Aligned (g h : GroupConfig) : Prop where
  root : g.targetRoot = h.targetRoot
  length : g.target.components.length = h.target.components.length

/-- Members of aligned groups with different targets have absolute target paths that are neither
equal nor one beneath the other. -/
theorem GroupConfig.Aligned.apart {g h : GroupConfig} (ha : g.Aligned h) {a b : GroupId}
    {m n : Name} {d e : DesiredMount} (hd : desiredMount a g m = .ok d)
    (he : desiredMount b h n = .ok e) (hne : d.target ≠ e.target) :
    Apart d.absoluteTarget e.absoluteTarget := by
  obtain ⟨hrd,hld⟩ := desiredMount_target hd
  obtain ⟨hre,hle⟩ := desiredMount_target he
  have hroots : d.target.root = e.target.root := by rw [hrd,hre,ha.root]
  unfold DesiredMount.absoluteTarget
  apply Apart.of_length
  · rw [List.length_append,List.length_append,hroots,hld,hle,ha.length]
  · rw [hroots]
    intro heq
    apply hne
    have hpath : d.target.path = e.target.path := by
      have hj := congrArg (List.intercalate ['/']) (List.append_cancel_left heq)
      rwa [List.intercalate_splitOn,List.intercalate_splitOn] at hj
    calc
      d.target = ⟨d.target.root,d.target.path⟩ := rfl
      _ = e.target := by rw [hroots,hpath]

/-- Members with one target are of aligned groups. -/
theorem aligned_of_target {g h : GroupConfig} {a b : GroupId} {m n : Name} {d e : DesiredMount}
    (hd : desiredMount a g m = .ok d) (he : desiredMount b h n = .ok e)
    (ht : d.target = e.target) : g.Aligned h := by
  obtain ⟨hrd,hld⟩ := desiredMount_target hd
  obtain ⟨hre,hle⟩ := desiredMount_target he
  exact ⟨by rw [← hrd,← hre,ht],by rw [← hld,← hle,ht]⟩

/-! ### What the configuration decides -/

/-- Any two members that a pass accepts have absolute targets apart, whatever there is in the
membership directories, is recorded, and is observed. -/
def Config.AcceptsApart (config : Config) : Prop :=
  ∀ (H : Type) (openEnv : OpenEnv H) (runtime : Runtime H),
    Runtime.open openEnv config = .ok runtime →
    ∀ (env : PassEnv H) (state : State) (degraded : Degraded) (j k : RecordKey)
      (d e : DesiredMount), j ≠ k →
      (accepted (passInput env runtime state degraded))[j]? = some d →
      (accepted (passInput env runtime state degraded))[k]? = some e →
      Apart d.absoluteTarget e.absoluteTarget

/-- Whatever the names, the targets of two groups with different roots, or with templates of
different depth, are apart. -/
def Config.SeparateTargets (config : Config) : Prop :=
  ∀ g h : GroupConfig, config.Declares g → config.Declares h → ¬g.Aligned h →
    ∀ (m n : Name) (d e : DesiredMount), desiredMount g.name g m = .ok d →
      desiredMount h.name h n = .ok e → Apart d.absoluteTarget e.absoluteTarget

theorem PassEnv.Present.declares {H : Type} {env : PassEnv H} {runtime : Runtime H}
    {degraded : Degraded} {config : Config} (ho : runtime.Opens config) {id : GroupId}
    {g : GroupRuntime H} (hg : env.Present runtime degraded id g) :
    config.Declares g.config ∧ g.config.name = id := by
  rw [← discover_present] at hg
  exact ⟨(ho.discover env.toScanEnv degraded.sets).declared id g hg,
    (runtime.discover env.toScanEnv degraded.sets).1.groups_keyed id g hg⟩

/-- A declared group is known by its name. -/
theorem Config.Declares.eq_of_name {config : Config} (hk : config.Keyed) {g h : GroupConfig}
    (hg : config.Declares g) (hh : config.Declares h) (hname : g.name = h.name) : g = h := by
  cases hg with
  | static hg =>
    rw [hk.groups _ _ hg] at hname
    cases hh with
    | static hh =>
      rw [hk.groups _ _ hh,GroupId.statically_inj] at hname
      rw [hname,hh] at hg
      exact (Option.some.inj hg).symm
    | found hset hh =>
      rw [(GroupSetConfig.group_ok hh).2.2.1] at hname
      cases hname
  | found hset hg =>
    rw [(GroupSetConfig.group_ok hg).2.2.1] at hname
    cases hh with
    | static hh =>
      rw [hk.groups _ _ hh] at hname
      cases hname
    | found hset' hh =>
      rw [(GroupSetConfig.group_ok hh).2.2.1,GroupId.inSet_inj,hk.sets _ _ hset,
        hk.sets _ _ hset'] at hname
      obtain ⟨rfl,rfl⟩ := hname
      rw [hset] at hset'
      cases hset'
      rw [hg] at hh
      exact Except.ok.inj hh

theorem Config.SeparateTargets.acceptsApart {config : Config} (hk : config.Keyed)
    (h : config.SeparateTargets) : config.AcceptsApart := by
  intro H openEnv runtime hopen env state degraded j k d e hjk hd he
  obtain ⟨rfl,had⟩ := (accepted_get _ j d).mp hd
  obtain ⟨rfl,hae⟩ := (accepted_get _ k e).mp he
  obtain ⟨-,g,-,hg,-,-,hgd⟩ := mem_desired.mp had.mem
  obtain ⟨-,g',-,hg',-,-,hge⟩ := mem_desired.mp hae.mem
  by_cases ha : g.config.Aligned g'.config
  · refine ha.apart hgd hge fun ht => ?_
    exact hjk (by rw [had.eq_of_target hae ht])
  · have hopens := open_opens hk hopen
    obtain ⟨hdeclared,hname⟩ := hg.declares hopens
    obtain ⟨hdeclared',hname'⟩ := hg'.declares hopens
    exact h _ _ hdeclared hdeclared' ha _ _ d e (hname ▸ hgd) (hname' ▸ hge)

/-! ### A pass that sees both members

Directories are known by the configured path that was opened and the names followed from
there. -/

abbrev Handle := AbsPath × List Name

def handleEnv : OpenEnv Handle := ⟨fun _ => .ok (),fun path => .ok (path,[])⟩

/-- Where the membership directory of a group is. -/
inductive Config.At (config : Config) : GroupConfig → Handle → Prop
  | static {name : Name} {g : GroupConfig} (h : config.groups[name]? = some g) :
      config.At g (g.membership,[])
  | found {name : Name} {set : GroupSetConfig} {path : List Name} {h : path.length = set.depth}
      {g : GroupConfig} (hset : config.groupSets[name]? = some set) (hg : set.group path h = .ok g) :
      config.At g (set.membershipRoot,path)

theorem Config.Declares.located {config : Config} {g : GroupConfig} (h : config.Declares g) :
    ∃ dir, config.At g dir := by
  cases h with
  | static h => exact ⟨_,.static h⟩
  | found hset hg => exact ⟨_,.found hset hg⟩

/-- No other area has the path of a membership root. -/
theorem area_of_root {config : Config} (h : hasErrors (checkCrossGroup config) = false)
    {area other : MembershipArea} (ha : area ∈ membershipAreas config)
    (ho : other ∈ membershipAreas config) (hset : other.isSet = true)
    (hpath : area.path = other.path) : area.label = other.label := by
  have hpair := hasErrors_flatMap.mp (hasErrors_flatMap.mp h area ha) other ho
  rw [checkAreas,hasErrors_append,Bool.or_eq_false_iff] at hpair
  by_contra hlabel
  have hbeneath : area.path.isAtOrBeneath other.path = true := by
    rw [hpath,AbsPath.isAtOrBeneath_iff]
  have hoverlap := hpair.2
  rw [if_pos ⟨hlabel,hset,.inl hbeneath⟩] at hoverlap
  simp [hasErrors,errorIssue] at hoverlap

theorem static_area {config : Config} {name : Name} {g : GroupConfig}
    (h : config.groups[name]? = some g) :
    ⟨g.name.display,g.origin,g.membership,g.targetRoot,false⟩ ∈ membershipAreas config :=
  List.mem_append_left _ (List.mem_map_of_mem (Maps.mem_values.mpr ⟨name,h⟩))

theorem root_area {config : Config} {name : Name} {set : GroupSetConfig}
    (h : config.groupSets[name]? = some set) :
    ⟨setLabel set.name.text,set.origin,set.membershipRoot,set.targetRoot,true⟩ ∈
      membershipAreas config :=
  List.mem_append_right _ (List.mem_map_of_mem (Maps.mem_values.mpr ⟨name,h⟩))

theorem setLabel_ne_name (s n : Name) : setLabel s.text ≠ n.text := by
  intro heq
  have hslash : '/' ∈ n.text := by
    rw [← heq]
    simp [setLabel]
  exact n.slash_notMem hslash

/-- Directories that are reached from one configured path are equally deep. -/
theorem Config.At.length {config : Config} (hk : config.Keyed)
    (hc : hasErrors (checkCrossGroup config) = false) {g h : GroupConfig} {a b : Handle}
    (ha : config.At g a) (hb : config.At h b) (hp : a.1 = b.1) : a.2.length = b.2.length := by
  cases ha with
  | static hg =>
    cases hb with
    | static hh => rfl
    | found hset hh =>
      have hlabel := area_of_root hc (static_area hg) (root_area hset) rfl hp
      rw [hk.groups _ _ hg] at hlabel
      exact absurd hlabel.symm (by simpa [GroupId.display,GroupId.statically] using setLabel_ne_name _ _)
  | found hset hg =>
    cases hb with
    | static hh =>
      have hlabel := area_of_root hc (static_area hh) (root_area hset) rfl hp.symm
      rw [hk.groups _ _ hh] at hlabel
      exact absurd hlabel.symm (by simpa [GroupId.display,GroupId.statically] using setLabel_ne_name _ _)
    | found hset' hh =>
      rename_i name set path hlen name' set' path' hlen'
      have hlabel := area_of_root hc (root_area hset) (root_area hset') rfl hp
      have hname : set.name = set'.name :=
        Name.text_injective (List.append_cancel_right hlabel)
      rw [hk.sets _ _ hset,hk.sets _ _ hset'] at hname
      subst hname
      rw [hset] at hset'
      cases hset'
      exact hlen.trans hlen'.symm

/-- Every directory lists the same entries.  All of them are directories, but for the member
in its directory. -/
def bothEnv (a b : Handle) (m n : Name) (identity : MountIdentity) : PassEnv Handle where
  readDir := fun _ => .ok ((a.2++b.2++[m,n]).map Name.bytes,none)
  statx := fun dir fileName =>
    .ok (if (dir = a ∧ fileName = m.bytes) ∨ (dir = b ∧ fileName = n.bytes) then .regular 0
      else .directory)
  openDir := fun dir fileName =>
    match Name.fromBytes fileName with
    | .ok name => .ok (dir.1,dir.2++[name])
    | .error _ => .error .noent
  isDeleted := fun _ => .ok false
  strerror := fun _ => "an error"
  rootError := fun _ => none
  resolveDir := fun _ => .ok ⟨0,0,0⟩
  inspect := fun _ => .mounted identity none

section
variable {a b : Handle} {m n : Name} {identity : MountIdentity}

theorem bothEnv_listed (dir : Handle) : ¬(bothEnv a b m n identity).ListingFails dir := by
  simp [ScanEnv.ListingFails,ScanEnv.listingError,bothEnv]

theorem bothEnv_enters {dir : Handle} {name : Name} (hmem : name ∈ a.2++b.2++[m,n])
    (ha : dir ≠ a) (hb : dir ≠ b) :
    (bothEnv a b m n identity).Enters dir name (dir.1,dir.2++[name]) := by
  have hname : Name.fromBytes name.bytes = .ok name := Name.fromBytes_iff.mpr rfl
  refine ⟨name.bytes,⟨hname,_,none,rfl,List.mem_map_of_mem hmem⟩,?_,?_⟩
  · simp [bothEnv,ha,hb]
  · simp [bothEnv,hname]

theorem bothEnv_walks (dir : Handle) {path : List Name}
    (hmem : ∀ name ∈ path, name ∈ a.2++b.2++[m,n]) (hno : ∀ rest, rest <+: path → rest ≠ path →
      (dir.1,dir.2++rest) ≠ a ∧ (dir.1,dir.2++rest) ≠ b) :
    (bothEnv a b m n identity).Walks dir path (dir.1,dir.2++path) := by
  induction path generalizing dir with
  | nil => simp [ScanEnv.Walks]
  | cons name path ih =>
    obtain ⟨ha,hb⟩ := hno [] List.nil_prefix (by simp)
    rw [List.append_nil] at ha hb
    refine ⟨_,bothEnv_enters (hmem name (by simp)) ha hb,?_⟩
    have h := ih (dir.1,dir.2++[name]) (fun x hx => hmem x (by simp [hx])) ?_
    · simpa using h
    · intro rest hrest hne
      have h := hno (name::rest) ((List.prefix_cons_inj name).mpr hrest) (by simpa using hne)
      simpa using h

/-- The directories of both members are reached: neither lies above the other. -/
theorem bothEnv_reaches (hlen : a.1 = b.1 → a.2.length = b.2.length) {c : Handle}
    (hc : c = a ∨ c = b) : (bothEnv a b m n identity).Walks (c.1,[]) c.2 c := by
  have hsame : ∀ x, x = a ∨ x = b → c.1 = x.1 → c.2.length = x.2.length := by
    rintro x (rfl | rfl) hx <;> rcases hc with rfl | rfl
    · rfl
    · exact (hlen hx.symm).symm
    · exact hlen hx
    · rfl
  refine bothEnv_walks (c.1,[]) ?_ ?_
  · intro name hname
    rcases hc with rfl | rfl <;> simp [hname]
  · intro rest hrest hne
    have hother : ∀ x, x = a ∨ x = b → (c.1,rest) ≠ x := by
      rintro x hx rfl
      exact hne (hrest.eq_of_length (hsame _ hx rfl).symm)
    exact ⟨hother a (.inl rfl),hother b (.inr rfl)⟩

theorem bothEnv_not_unread {levels : ℕ} {dir : Handle} {path : List Name} :
    ¬(bothEnv a b m n identity).Unread levels dir path := by
  induction path generalizing levels dir with
  | nil =>
    cases levels with
    | zero => exact id
    | succ levels => exact bothEnv_listed dir
  | cons name path ih =>
    cases levels with
    | zero => exact id
    | succ levels =>
      rintro (⟨-,fileName,e,-,-,hopen,hne⟩ | ⟨next,-,hrest⟩)
      · simp only [bothEnv] at hopen
        split at hopen <;> cases hopen
        exact hne rfl
      · exact ih hrest

variable {runtime : Runtime Handle} {state : State} {id : GroupId}

theorem bothEnv_not_frozen : ¬(bothEnv a b m n identity).Frozen runtime state ⟨∅,∅⟩ id := by
  have havailable : ∀ id, ¬(bothEnv a b m n identity).Unavailable runtime ∅ id := by
    rintro id ⟨_,_,_,-,-,-,-,hunread,-⟩
    exact bothEnv_not_unread hunread
  have hscannable : ∀ set, (bothEnv a b m n identity).Scannable set :=
    fun set => ⟨rfl,bothEnv_listed set.rootDir⟩
  rintro ((h | h | ⟨r,-,-,⟨s,-,h | ⟨set,-,-,h⟩⟩ | ⟨pre,h,-⟩⟩) | ⟨g,-,h | h⟩)
  · cases h
  · exact havailable _ h
  · cases h
  · exact h (hscannable set)
  · exact havailable _ h
  · cases h
  · exact bothEnv_listed _ h

/-- The members are seen in their directories. -/
theorem bothEnv_members (a b : Handle) (m n : Name) (identity : MountIdentity) :
    (∃ members, scanMembership (bothEnv a b m n identity).toScanEnv a =
      .ok members ∧ m ∈ members.members) ∧
    ∃ members, scanMembership (bothEnv a b m n identity).toScanEnv b = .ok members ∧
      n ∈ members.members := by
  have hmember : ∀ (dir : Handle) (x : Name), x ∈ [m,n] →
      (bothEnv a b m n identity).statx dir x.bytes = .ok (.regular 0) →
      ∃ members, scanMembership (bothEnv a b m n identity).toScanEnv dir = .ok members ∧
        x ∈ members.members := by
    intro dir x hx hstat
    refine ⟨_,rfl,(fromEntries_spec _).1 x |>.mpr ?_⟩
    refine List.mem_map.mpr ⟨x.bytes,List.mem_filter.mpr ⟨?_,?_⟩,?_⟩
    · exact List.mem_map_of_mem (List.mem_append_right _ hx)
    · have hvisible := Name.fromBytes_visible (Name.fromBytes_iff.mpr (rfl : x.bytes = x.bytes))
      have hdot : x.bytes ≠ [dotByte] ∧ x.bytes ≠ [dotByte,dotByte] :=
        ⟨fun h => hvisible (by rw [h]; rfl),fun h => hvisible (by rw [h]; rfl)⟩
      simpa using hdot
    · rw [hstat]
      rfl
  exact ⟨hmember a m (by simp) (by simp [bothEnv]),hmember b n (by simp) (by simp [bothEnv])⟩

end

/-- Groups and sets are opened at their configured paths. -/
structure Runtime.AtPaths (runtime : Runtime Handle) : Prop where
  groups : ∀ (id : GroupId) (g : GroupRuntime Handle), runtime.groups[id]? = some g →
    g.membershipDir = (g.config.membership,[])
  sets : ∀ (name : Name) (set : SetRuntime Handle), runtime.sets[name]? = some set →
    set.rootDir = (set.config.membershipRoot,[])

theorem Runtime.AtPaths.insertGroup {runtime : Runtime Handle} (h : runtime.AtPaths)
    (g : GroupConfig) : (runtime.insertGroup ⟨g,(g.membership,[])⟩).AtPaths where
  groups := by
    intro id g' hg
    simp only [Runtime.insertGroup,ExtTreeMap.getElem?_insert] at hg
    split_ifs at hg
    · cases hg
      rfl
    · exact h.groups id g' hg
  sets := h.sets

theorem Runtime.AtPaths.insertSet {runtime : Runtime Handle} (h : runtime.AtPaths)
    (set : GroupSetConfig) : (runtime.insertSet ⟨set,(set.membershipRoot,[])⟩).AtPaths where
  groups := h.groups
  sets := by
    intro name set' hset
    simp only [Runtime.insertSet,ExtTreeMap.getElem?_insert] at hset
    split_ifs at hset
    · cases hset
      rfl
    · exact h.sets name set' hset

theorem handleEnv_open (config : Config) :
    ∃ runtime, Runtime.open handleEnv config = .ok runtime ∧ runtime.AtPaths := by
  have hgroup : ∀ (g : GroupConfig) (rt : Runtime Handle),
      openGroup handleEnv g rt = .ok (rt.insertGroup ⟨g,(g.membership,[])⟩) := fun _ _ => rfl
  have hset : ∀ (set : GroupSetConfig) (rt : Runtime Handle),
      openSet handleEnv set rt = .ok (rt.insertSet ⟨set,(set.membershipRoot,[])⟩) := fun _ _ => rfl
  obtain ⟨groups,hgroups⟩ := (Program.foldlM_ok_iff (P := fun _ => True)
    (f := fun rt (entry : Name × GroupConfig) => openGroup handleEnv entry.2 rt)
    (fun rt entry => iff_of_true ⟨_,hgroup entry.2 rt⟩ trivial) config.groups.toList
      .empty).mpr fun _ _ => trivial
  obtain ⟨runtime,hsets⟩ := (Program.foldlM_ok_iff (P := fun _ => True)
    (f := fun rt (entry : Name × GroupSetConfig) => openSet handleEnv entry.2 rt)
    (fun rt entry => iff_of_true ⟨_,hset entry.2 rt⟩ trivial) config.groupSets.toList
      groups).mpr fun _ _ => trivial
  refine ⟨runtime,?_,?_⟩
  · unfold Runtime.open
    rw [hgroups]
    exact hsets
  · refine Program.foldlM_ok_induction ?_ (Program.foldlM_ok_induction ?_ ?_ hgroups) hsets
    · intro rt entry rt' hrt hopen
      rw [hset] at hopen
      cases hopen
      exact hrt.insertSet entry.2
    · intro rt entry rt' hrt hopen
      rw [hgroup] at hopen
      cases hopen
      exact hrt.insertGroup entry.2
    · exact ⟨by simp [Runtime.empty],by simp [Runtime.empty]⟩

/-- A group is found where its membership directory is. -/
theorem Config.At.present {config : Config} (hk : config.Keyed) {runtime : Runtime Handle}
    (ho : runtime.Opens config) (hp : runtime.AtPaths) {g : GroupConfig} {dir : Handle}
    (h : config.At g dir) {env : PassEnv Handle} (hscan : ∀ set, env.Scannable set)
    (hwalks : env.Walks (dir.1,[]) dir.2 dir) : env.Present runtime ⟨∅,∅⟩ g.name ⟨g,dir⟩ := by
  cases h with
  | static hg =>
    rename_i name
    have hconfig := ho.groups name
    rw [hg] at hconfig
    obtain ⟨rt,hrt,hrtc⟩ := Option.map_eq_some_iff.mp hconfig
    have hdir := hp.groups _ _ hrt
    rw [hrtc] at hdir
    refine .inl ⟨by rw [hk.groups _ _ hg]; rfl,?_⟩
    rw [hk.groups _ _ hg,hrt,← hdir,← hrtc]
  | found hset hg =>
    rename_i name set path hlen
    have hconfig := ho.sets name
    rw [hset] at hconfig
    obtain ⟨rt,hrt,hrtc⟩ := Option.map_eq_some_iff.mp hconfig
    have hdir := hp.sets _ _ hrt
    subst hrtc
    refine .inr ⟨⟨name,rt,hrt,Finset.notMem_empty _,hscan rt,path,?_,hlen,hg⟩,rfl⟩
    rw [hdir]
    exact hwalks

/-- Both mounts are recorded. -/
def bothRecorded (d e : DesiredMount) (identity : MountIdentity) : State :=
  ((State.empty.insert (newRecord d identity 0)).1.insert (newRecord e identity 0)).1

theorem bothRecorded_get {d e : DesiredMount} {identity : MountIdentity} {k : RecordKey}
    {r : MountRecord} (h : (bothRecorded d e identity).get k = some r) :
    (k = e.key ∧ r = newRecord e identity 0) ∨ (k = d.key ∧ r = newRecord d identity 0) := by
  unfold bothRecorded at h
  rw [State.get_insert,State.get_insert,State.get_empty,newRecord_key,newRecord_key] at h
  split_ifs at h with he hd
  · cases h
    exact .inl ⟨he.symm,rfl⟩
  · cases h
    exact .inr ⟨hd.symm,rfl⟩

/-- A member that is mounted as recorded is accepted, whoever else wants its target, unless
another one is recorded there too. -/
theorem accepts_of_recorded {H : Type} {env : PassEnv H} {runtime : Runtime H} {state : State}
    {deg : Degraded} {d : DesiredMount} {identity : MountIdentity}
    (hseen : ∀ l, observeTarget env l = .mounted identity none)
    (hd : env.Wanted runtime state deg d) (hr : state.get d.key = some (newRecord d identity 0))
    (honly : ∀ k q, state.get k = some q → q.targetLocation = d.target → k = d.key) :
    Accepts (passInput env runtime state deg) d := by
  rw [accepts_iff_chosen desired_keys_nodup]
  apply chosen_of_verified
  · exact mem_membersAt.mpr ⟨mem_desired.mpr hd,fun hf => hd.1 (mem_frozenGroups.mp hf),rfl⟩
  · refine isVerified_iff.mpr ⟨_,hr,(recordMatchesDesired_iff _ d).mpr ⟨rfl,rfl⟩,?_⟩
    rw [passInput_target hd,hseen]
    exact MountIdentity.matches_self identity
  · intro e he hv
    obtain ⟨hmem,-,het⟩ := mem_membersAt.mp he
    obtain ⟨q,hq,hmatch,-⟩ := isVerified_iff.mp hv
    have hql : q.targetLocation = d.target := ((recordMatchesDesired_iff q e).mp hmatch).2.trans het
    exact List.inj_on_of_nodup_map desired_keys_nodup hmem (mem_desired.mpr hd) (honly _ q hq hql)

theorem Config.AcceptsApart.separateTargets {config : Config} (hk : config.Keyed)
    (hc : hasErrors (checkCrossGroup config) = false) (h : config.AcceptsApart) :
    config.SeparateTargets := by
  intro g g' hg hg' hna m n d e hd he
  obtain ⟨a,ha⟩ := hg.located
  obtain ⟨b,hb⟩ := hg'.located
  obtain ⟨runtime,hopen,hpaths⟩ := handleEnv_open config
  have hopens := open_opens hk hopen
  have hlen := ha.length hk hc hb
  let identity : MountIdentity := ⟨1,none,⟨0,0,0⟩⟩
  let env := bothEnv a b m n identity
  let state := bothRecorded d e identity
  have hscan : ∀ set, env.Scannable set := fun set => ⟨rfl,bothEnv_listed set.rootDir⟩
  have hpa : env.Present runtime ⟨∅,∅⟩ g.name ⟨g,a⟩ :=
    ha.present hk hopens hpaths hscan (bothEnv_reaches hlen (.inl rfl))
  have hpb : env.Present runtime ⟨∅,∅⟩ g'.name ⟨g',b⟩ :=
    hb.present hk hopens hpaths hscan (bothEnv_reaches hlen (.inr rfl))
  have hdkey := desiredMount_key hd
  have hekey := desiredMount_key he
  obtain ⟨⟨ma,hma,hmem⟩,mb,hmb,hnmem⟩ := bothEnv_members a b m n identity
  have hwd : env.Wanted runtime state ⟨∅,∅⟩ d := by
    refine ⟨bothEnv_not_frozen,⟨g,a⟩,ma,?_,hma,?_,?_⟩ <;> rw [hdkey]
    · exact hpa
    · exact hmem
    · exact hd
  have hwe : env.Wanted runtime state ⟨∅,∅⟩ e := by
    refine ⟨bothEnv_not_frozen,⟨g',b⟩,mb,?_,hmb,?_,?_⟩ <;> rw [hekey]
    · exact hpb
    · exact hnmem
    · exact he
  -- groups that are not aligned have other names and other targets
  have hkey : d.key ≠ e.key := by
    rw [hdkey,hekey]
    intro heq
    rw [hg.eq_of_name hk hg' (congrArg RecordKey.group heq)] at hna
    exact hna ⟨rfl,rfl⟩
  have htarget : d.target ≠ e.target := fun ht => hna (aligned_of_target hd he ht)
  have hgd : state.get d.key = some (newRecord d identity 0) := by
    simp [state,bothRecorded,hkey.symm]
  have hge : state.get e.key = some (newRecord e identity 0) := by
    simp [state,bothRecorded]
  have hsame : ∀ k q, state.get k = some q → (q.targetLocation = d.target → k = d.key) ∧
      (q.targetLocation = e.target → k = e.key) := by
    intro k q hq
    rcases bothRecorded_get hq with ⟨rfl,rfl⟩ | ⟨rfl,rfl⟩
    · exact ⟨fun ht => absurd ht.symm htarget,fun _ => rfl⟩
    · exact ⟨fun _ => rfl,fun ht => absurd ht htarget⟩
  have had := accepts_of_recorded (fun _ => rfl) hwd hgd fun k q hq => (hsame k q hq).1
  have hae := accepts_of_recorded (fun _ => rfl) hwe hge fun k q hq => (hsame k q hq).2
  exact h Handle handleEnv runtime hopen env state ⟨∅,∅⟩ _ _ d e hkey
    ((accepted_get _ _ d).mpr ⟨rfl,had⟩) ((accepted_get _ _ e).mpr ⟨rfl,hae⟩)

/-- The members that passes accept have targets apart, exactly if the configuration keeps apart
the targets of any two groups that differ in root or depth. -/
theorem accepts_apart_iff {env : LoadEnv} {options : LoadOptions} {loaded : Loaded}
    (h : load env options = .ok loaded) :
    loaded.config.AcceptsApart ↔ loaded.config.SeparateTargets := by
  have hk := load_keyed h
  have hc : hasErrors (checkCrossGroup loaded.config) = false := by
    obtain ⟨hconfig,herrors⟩ := load_ok h
    rw [hconfig]
    simp only [assemble,hasErrors_append,Bool.or_eq_false_iff] at herrors ⊢
    exact herrors.2
  exact ⟨fun ha => ha.separateTargets hk hc,fun hs => hs.acceptsApart hk⟩

/-! Three groups: two members reach one target, and a third one lies above it. -/
namespace SharedTarget

/-- The main file. -/
def text : Text := "[groups.a]
membership = \"/members/a\"
source_root = \"/data\"
source = \"\x7bname\x7d\"
target_root = \"/view\"
target = \"x/\x7bname\x7d\"
[groups.b]
membership = \"/members/b\"
source_root = \"/data\"
source = \"\x7bname\x7d\"
target_root = \"/view/x\"
target = \"\x7bname\x7d\"
[groups.c]
membership = \"/members/c\"
source_root = \"/data\"
source = \"\x7bname\x7d\"
target_root = \"/view\"
target = \"\x7bname\x7d\"
".toList

def rawGroup (membership targetRoot target : String) : RawGroup where
  membership := membership.toList
  sourceRoot := "/data".toList
  source := "\x7bname\x7d".toList
  targetRoot := targetRoot.toList
  target := target.toList
  readOnly := none
  noexec := none
  nosymfollow := none

def rawA : RawGroup := rawGroup "/members/a" "/view" "x/\x7bname\x7d"
def rawB : RawGroup := rawGroup "/members/b" "/view/x" "\x7bname\x7d"
def rawC : RawGroup := rawGroup "/members/c" "/view" "\x7bname\x7d"

def rawFile : RawFile :=
  ⟨none,(((∅ : ExtTreeMap Text RawGroup).insert ['a'] rawA).insert ['b'] rawB).insert ['c'] rawC,∅⟩

def loadEnv : LoadEnv :=
  {TargetBeneath.env with
    openFile := fun _ _ => .ok ⟨.ok ⟨0,0o644,true,false⟩,.ok text⟩
    parse := fun s => if s = text then .ok rawFile else .error "no such document"}

theorem valid_a : ValidName ['a'] := by decide
theorem valid_b : ValidName ['b'] := by decide

def a : Name := ⟨['a'],valid_a⟩
def b : Name := ⟨['b'],valid_b⟩
def c : Name := ⟨['c'],by decide⟩
def x : Name := ⟨['x'],by decide⟩
def y : Name := ⟨['y'],by decide⟩

/-- A group, as it is validated. -/
def groupOf (name : Name) (raw : RawGroup)
    (h : (validateGroup name raw TargetBeneath.options.mainFile).1.isSome = true) : GroupConfig :=
  (validateGroup name raw TargetBeneath.options.mainFile).1.get h

def configA : GroupConfig := groupOf a rawA (by decide +kernel)
def configB : GroupConfig := groupOf b rawB (by decide +kernel)
def configC : GroupConfig := groupOf c rawC (by decide +kernel)

theorem load_lists : (load loadEnv TargetBeneath.options).toOption.map
    (fun l => (l.config.groups.toList,l.config.groupSets.toList)) =
      some ([(a,configA),(b,configB),(c,configC)],[]) := by
  decide +kernel

theorem load_isSome : (load loadEnv TargetBeneath.options).toOption.isSome = true := by
  rw [← Option.isSome_map,load_lists]
  rfl

def loaded : Loaded := (load loadEnv TargetBeneath.options).toOption.get load_isSome

theorem load_eq : load loadEnv TargetBeneath.options = .ok loaded :=
  Program.ok_of_toOption (Option.some_get _).symm

theorem loaded_lists : loaded.config.groups.toList = [(a,configA),(b,configB),(c,configC)] ∧
    loaded.config.groupSets.toList = [] := by
  have hload := load_eq
  generalize loaded = l at hload ⊢
  exact Prod.ext_iff.mp (Program.eq_of_toOption_map load_lists hload)

/-- Every directory opens; the handle is its path. -/
def openEnv : OpenEnv AbsPath := ⟨fun _ => .ok (),.ok⟩

def runtime : Runtime AbsPath :=
  ((Runtime.empty.insertGroup ⟨configA,configA.membership⟩).insertGroup
    ⟨configB,configB.membership⟩).insertGroup ⟨configC,configC.membership⟩

theorem openGroup_eq (g : GroupConfig) (rt : Runtime AbsPath) :
    openGroup openEnv g rt = .ok (rt.insertGroup ⟨g,g.membership⟩) := rfl

theorem open_eq : Runtime.open openEnv loaded.config = .ok runtime := by
  unfold Runtime.open runtime
  rw [loaded_lists.1,loaded_lists.2]
  simp only [List.foldlM_cons,List.foldlM_nil,openGroup_eq]
  rfl

/-- The file `y` is in the directories of `a` and `b`, and `x` in that of `c`. -/
def env : PassEnv AbsPath where
  readDir := fun dir =>
    .ok (if dir = configC.membership then [[120]] else [[121]],none)
  statx := fun _ _ => .ok (.regular 0)
  openDir := fun _ _ => .error .noent
  isDeleted := fun _ => .ok false
  strerror := fun _ => "an error"
  rootError := fun _ => none
  resolveDir := fun _ => .ok ⟨0,0,0⟩
  inspect := fun _ => .notMounted

def degraded : Degraded := ⟨∅,∅⟩

def input : PlanInput := passInput env runtime .empty degraded

def memberA : RecordKey := ⟨.statically a,y⟩
def memberB : RecordKey := ⟨.statically b,y⟩
def memberC : RecordKey := ⟨.statically c,x⟩

/-- All three members are accepted: two have the same absolute target, beneath the third's. -/
theorem members_overlap : ∃ d e f, (accepted input)[memberA]? = some d ∧
    (accepted input)[memberB]? = some e ∧ (accepted input)[memberC]? = some f ∧
    d.absoluteTarget = e.absoluteTarget ∧ f.absoluteTarget ≠ d.absoluteTarget ∧
    f.absoluteTarget <+: d.absoluteTarget := by
  have hget : (((accepted input)[memberA]?).map DesiredMount.absoluteTarget,
      ((accepted input)[memberB]?).map DesiredMount.absoluteTarget,
      ((accepted input)[memberC]?).map DesiredMount.absoluteTarget) =
      (some ["view".toList,['x'],['y']],some ["view".toList,['x'],['y']],
        some ["view".toList,['x']]) := by
    decide +kernel
  obtain ⟨hA,hBC⟩ := Prod.ext_iff.mp hget
  obtain ⟨hB,hC⟩ := Prod.ext_iff.mp hBC
  obtain ⟨d,hd,hdt⟩ := Option.map_eq_some_iff.mp hA
  obtain ⟨e,he,het⟩ := Option.map_eq_some_iff.mp hB
  obtain ⟨f,hf,hft⟩ := Option.map_eq_some_iff.mp hC
  refine ⟨d,e,f,hd,he,hf,hdt.trans het.symm,?_,?_⟩
  · rw [hdt,hft]
    decide
  · rw [hdt,hft]
    exact ⟨[['y']],rfl⟩

/-- The configuration loads, its directories open, and two members share an absolute target. -/
theorem accepted_overlap : load loadEnv TargetBeneath.options = .ok loaded ∧
    Runtime.open openEnv loaded.config = .ok runtime ∧
    ∃ d e f, (accepted input)[memberA]? = some d ∧ (accepted input)[memberB]? = some e ∧
      (accepted input)[memberC]? = some f ∧ d.absoluteTarget = e.absoluteTarget ∧
      f.absoluteTarget ≠ d.absoluteTarget ∧ f.absoluteTarget <+: d.absoluteTarget :=
  ⟨load_eq,open_eq,members_overlap⟩

theorem not_acceptsApart : ¬loaded.config.AcceptsApart := by
  intro h
  obtain ⟨d,e,-,hd,he,-,heq,-⟩ := members_overlap
  have hapart := h _ openEnv runtime open_eq env .empty degraded memberA memberB d e
    (by decide) hd he
  exact hapart.1 (by rw [heq])

end SharedTarget

/-! Two groups with different target roots. -/
namespace SharedMembership

theorem declares_iff {g : GroupConfig} (h : loaded.config.Declares g) : g = configA ∨ g = configB := by
  obtain ⟨hgroups,hsets,-⟩ := loaded_lists
  cases h with
  | static hg =>
    rw [← ExtTreeMap.mem_toList_iff_getElem?_eq_some,hgroups] at hg
    simp only [List.mem_cons,List.not_mem_nil,or_false,Prod.mk.injEq] at hg
    exact hg.imp And.right And.right
  | found hset hg =>
    rw [← ExtTreeMap.mem_toList_iff_getElem?_eq_some,hsets] at hset
    cases hset

theorem separateTargets : loaded.config.SeparateTargets := by
  intro g h hg hh hna m n d e hd he
  have hroots : Apart configA.targetRoot.components configB.targetRoot.components := by
    unfold Apart
    decide +kernel
  obtain ⟨hrd,-⟩ := desiredMount_target hd
  obtain ⟨hre,-⟩ := desiredMount_target he
  unfold DesiredMount.absoluteTarget
  rw [hrd,hre]
  rcases declares_iff hg with rfl | rfl <;> rcases declares_iff hh with rfl | rfl
  · exact absurd ⟨rfl,rfl⟩ hna
  · exact hroots.append _ _
  · exact hroots.symm.append _ _
  · exact absurd ⟨rfl,rfl⟩ hna

end SharedMembership

theorem accepts_apart_iff_run : SharedMembership.loaded.config.AcceptsApart ∧
    ¬SharedTarget.loaded.config.SeparateTargets :=
  ⟨(accepts_apart_iff SharedMembership.load_eq).mpr SharedMembership.separateTargets,
    fun h => SharedTarget.not_acceptsApart ((accepts_apart_iff SharedTarget.load_eq).mpr h)⟩

end Byssus
