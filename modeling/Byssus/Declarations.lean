import Byssus.MembershipAreas
import Byssus.SameSettings
import Byssus.ScanSpec

/-! An accepted configuration is what its files declare, each group and set once.
The loops of `assemble` are followed over the tables of all files; after an error their result
does not matter. -/
namespace Byssus

theorem Name.new_ok_iff {s : Text} {n : Name} : Name.new s = .ok n ↔ s = n.text := by
  constructor
  · intro h
    have hbytes : pathOf s = pathOf n.text := fromBytes_unique h n.new_text
    simpa using congrArg toStr hbytes
  · rintro rfl
    exact n.new_text

/-- A table of a file: the path of the file, the key of the table and what it says. -/
abbrev Declaration (α : Type) := PathBuf × Text × α

namespace Declaration

variable {α β : Type}

/-- The name that the key spells. -/
def name (e : Declaration α) : Option Name := (Name.new e.2.1).toOption

theorem name_eq_some {e : Declaration α} {n : Name} : e.name = some n ↔ e.2.1 = n.text := by
  rw [← Name.new_ok_iff]
  unfold name
  cases Name.new e.2.1 <;> simp [Except.toOption]

/-- What the table makes under its own name, if that is valid. -/
def made (validate : Name → α → PathBuf → Option β × Issues) (e : Declaration α) : Option β :=
  e.name.bind fun name => (validate name e.2.2 e.1).1

end Declaration

/-- The group tables of files, in the order of the loops. -/
def groupTables (files : List Parsed) : List (Declaration RawGroup) :=
  files.flatMap fun file => file.2.1.groups.toList.map (file.1,·)

/-- The tables of group sets. -/
def setTables (files : List Parsed) : List (Declaration RawGroupSet) :=
  files.flatMap fun file => file.2.1.groupSets.toList.map (file.1,·)

/-! ### One table -/

theorem hasErrors_validateGroup (name : Name) (raw : RawGroup) (path : PathBuf) :
    hasErrors (validateGroup name raw path).2 = (validateGroup name raw path).1.isNone := by
  unfold validateGroup absField
  simp only
  split
  · rename_i h₁ h₂ h₃ h₄ h₅
    simp [hasErrors_append,hasErrors_checkField,h₁,h₂,h₃,h₄,h₅]
  · rename_i hno
    simp only [hasErrors_append,hasErrors_checkField]
    by_contra hsome
    simp only [Option.isNone_none,Bool.not_eq_true,Bool.or_eq_false_iff,
      Option.isNone_eq_false_iff,Option.isSome_iff_exists] at hsome
    obtain ⟨⟨⟨⟨s,hs⟩,t,ht⟩,m,hm⟩,source,hsource⟩ := hsome.1
    obtain ⟨target,htarget⟩ := hsome.2
    exact hno s source t target m hs hsource ht htarget hm

/-- A group that is assembled without an error: its name is valid and new, and its table is
accepted. -/
theorem assembleGroup_ok {path : PathBuf} {a : Assembly} {entry : Text × RawGroup}
    (h : hasErrors (assembleGroup path a entry).issues = false) :
    hasErrors a.issues = false ∧ ∃ name g, Name.new entry.1 = .ok name ∧
      a.origins[name]? = none ∧ (validateGroup name entry.2 path).1 = some g ∧
      (assembleGroup path a entry).config.groups = a.config.groups.insert name g ∧
      (assembleGroup path a entry).origins = a.origins.insert name path := by
  unfold assembleGroup at h ⊢
  cases hn : Name.new entry.1 with
  | error e => simp [hn,Assembly.push,hasErrors,errorIssue] at h
  | ok name =>
    cases ho : a.origins[name]? with
    | some first => simp [hn,ho,Assembly.push,hasErrors,errorIssue] at h
    | none =>
      have hv := hasErrors_validateGroup name entry.2 path
      rcases hvg : validateGroup name entry.2 path with ⟨group,issues⟩
      cases group with
      | none =>
        rw [hvg] at hv
        simp [hn,ho,hvg,Assembly.push,hv] at h
      | some g =>
        simp only [hn,ho,hvg,Assembly.push,hasErrors_append,Bool.or_eq_false_iff] at h
        exact ⟨h.1,name,g,rfl,ho,by rw [hvg],by simp [ho,hvg,Assembly.push],
          by simp [ho,hvg,Assembly.push]⟩

theorem assembleGroupSet_ok {path : PathBuf} {a : Assembly} {entry : Text × RawGroupSet}
    (h : hasErrors (assembleGroupSet path a entry).issues = false) :
    hasErrors a.issues = false ∧ ∃ name set, Name.new entry.1 = .ok name ∧
      a.setOrigins[name]? = none ∧ (validateGroupSet name entry.2 path).1 = some set ∧
      (assembleGroupSet path a entry).config.groupSets = a.config.groupSets.insert name set ∧
      (assembleGroupSet path a entry).setOrigins = a.setOrigins.insert name path := by
  unfold assembleGroupSet at h ⊢
  cases hn : Name.new entry.1 with
  | error e => simp [hn,Assembly.push,hasErrors,errorIssue] at h
  | ok name =>
    cases ho : a.setOrigins[name]? with
    | some first => simp [hn,ho,Assembly.push,hasErrors,errorIssue] at h
    | none =>
      have hv := hasErrors_validateGroupSet name entry.2 path
      rcases hvs : validateGroupSet name entry.2 path with ⟨made,issues⟩
      cases made with
      | none =>
        rw [hvs] at hv
        simp [hn,ho,hvs,Assembly.push,hv] at h
      | some set =>
        have hname : set.name = name := (validateGroupSet_some (by rw [hvs])).1.name
        simp only [hn,ho,hvs,Assembly.push,hasErrors_append,Bool.or_eq_false_iff] at h
        exact ⟨h.1,name,set,rfl,ho,by rw [hvs],by simp [ho,hvs,Assembly.push,hname],
          by simp [ho,hvs,Assembly.push]⟩

theorem assembleGroup_frame (path : PathBuf) (a : Assembly) (entry : Text × RawGroup) :
    (assembleGroup path a entry).config.groupSets = a.config.groupSets ∧
      (assembleGroup path a entry).setOrigins = a.setOrigins := by
  unfold assembleGroup
  cases Name.new entry.1 with
  | error e => exact ⟨rfl,rfl⟩
  | ok name =>
    cases ho : a.origins[name]? with
    | some first => simp [ho,Assembly.push]
    | none =>
      rcases hv : validateGroup name entry.2 path with ⟨group,issues⟩
      cases group <;> simp [ho,hv,Assembly.push]

theorem assembleGroupSet_frame (path : PathBuf) (a : Assembly) (entry : Text × RawGroupSet) :
    (assembleGroupSet path a entry).config.groups = a.config.groups ∧
      (assembleGroupSet path a entry).origins = a.origins := by
  unfold assembleGroupSet
  cases Name.new entry.1 with
  | error e => exact ⟨rfl,rfl⟩
  | ok name =>
    cases ho : a.setOrigins[name]? with
    | some first => simp [ho,Assembly.push]
    | none =>
      rcases hv : validateGroupSet name entry.2 path with ⟨set,issues⟩
      cases set <;> simp [ho,hv,Assembly.push]

/-! ### All tables -/

/-- What is assembled is what the tables so far declare, each under a name of its own. -/
structure Assembly.Exact (a : Assembly) (groups : List (Declaration RawGroup))
    (sets : List (Declaration RawGroupSet)) : Prop where
  groups : Maps.Collected Declaration.name (Declaration.made validateGroup) groups a.config.groups
    a.origins
  sets : Maps.Collected Declaration.name (Declaration.made validateGroupSet) sets
    a.config.groupSets a.setOrigins

namespace Assembly.Exact

variable {a : Assembly} {groups : List (Declaration RawGroup)}
  {sets : List (Declaration RawGroupSet)} {path : PathBuf}

theorem group (h : a.Exact groups sets) {entry : Text × RawGroup}
    (he : hasErrors (assembleGroup path a entry).issues = false) :
    (assembleGroup path a entry).Exact (groups++[(path,entry)]) sets := by
  obtain ⟨-,name,g,hn,ho,hv,hgroups,horigins⟩ := assembleGroup_ok he
  obtain ⟨hsets,hsetOrigins⟩ := assembleGroup_frame path a entry
  have hname : Declaration.name (path,entry) = some name := by simp [Declaration.name,hn,Except.toOption]
  have hmade : Declaration.made validateGroup (path,entry) = some g := by
    simp [Declaration.made,hname,hv]
  refine ⟨?_,?_⟩
  · rw [hgroups,horigins]
    exact h.groups.push hname hmade ho path
  · rw [hsets,hsetOrigins]
    exact h.sets

theorem groupSet (h : a.Exact groups sets) {entry : Text × RawGroupSet}
    (he : hasErrors (assembleGroupSet path a entry).issues = false) :
    (assembleGroupSet path a entry).Exact groups (sets++[(path,entry)]) := by
  obtain ⟨-,name,set,hn,ho,hv,hsets,hsetOrigins⟩ := assembleGroupSet_ok he
  obtain ⟨hgroups,horigins⟩ := assembleGroupSet_frame path a entry
  have hname : Declaration.name (path,entry) = some name := by simp [Declaration.name,hn,Except.toOption]
  have hmade : Declaration.made validateGroupSet (path,entry) = some set := by
    simp [Declaration.made,hname,hv]
  refine ⟨?_,?_⟩
  · rw [hgroups,horigins]
    exact h.groups
  · rw [hsets,hsetOrigins]
    exact h.sets.push hname hmade ho path

/-- The loop over the groups of a file. -/
theorem foldGroups (h : hasErrors a.issues = false → a.Exact groups sets)
    {entries : List (Text × RawGroup)}
    (he : hasErrors (entries.foldl (assembleGroup path) a).issues = false) :
    hasErrors a.issues = false ∧
      (entries.foldl (assembleGroup path) a).Exact (groups++entries.map (path,·)) sets := by
  induction entries using List.reverseRecOn with
  | nil => exact ⟨he,by simpa using h he⟩
  | append_singleton done entry ih =>
    rw [List.foldl_append] at he ⊢
    obtain ⟨ha,hdone⟩ := ih (assembleGroup_ok he).1
    refine ⟨ha,?_⟩
    rw [List.map_append,← List.append_assoc]
    exact hdone.group he

/-- The loop over the group sets of a file. -/
theorem foldGroupSets (h : hasErrors a.issues = false → a.Exact groups sets)
    {entries : List (Text × RawGroupSet)}
    (he : hasErrors (entries.foldl (assembleGroupSet path) a).issues = false) :
    hasErrors a.issues = false ∧
      (entries.foldl (assembleGroupSet path) a).Exact groups (sets++entries.map (path,·)) := by
  induction entries using List.reverseRecOn with
  | nil => exact ⟨he,by simpa using h he⟩
  | append_singleton done entry ih =>
    rw [List.foldl_append] at he ⊢
    obtain ⟨ha,hdone⟩ := ih (assembleGroupSet_ok he).1
    refine ⟨ha,?_⟩
    rw [List.map_append,← List.append_assoc]
    exact hdone.groupSet he

/-- Daemon settings declare no group; outside of the main file they are an error. -/
theorem daemonTable (h : hasErrors a.issues = false → a.Exact groups sets)
    (escapeDebug : Text → String) {file : Parsed}
    (he : hasErrors (assembleDaemon escapeDebug a file).issues = false) :
    hasErrors a.issues = false ∧ (file.2.1.daemon.isSome = true → file.2.2 = true) ∧
      (assembleDaemon escapeDebug a file).Exact groups sets := by
  unfold assembleDaemon at he ⊢
  cases hd : file.2.1.daemon with
  | none =>
    simp only [hd] at he
    exact ⟨he,nofun,h he⟩
  | some daemon =>
    cases hm : file.2.2 with
    | false => simp [hd,hm,Assembly.push,hasErrors,errorIssue] at he
    | true =>
      simp only [hd,hm,if_true,Assembly.push,hasErrors_append,Bool.or_eq_false_iff] at he
      obtain ⟨hg,hs⟩ := h he.1
      exact ⟨he.1,fun _ => rfl,hg,hs⟩

/-- The loops over the tables of a file, one after the other. -/
theorem tables (h : hasErrors a.issues = false → a.Exact groups sets) (escapeDebug : Text → String)
    {file : Parsed} (he : hasErrors (file.2.1.groupSets.toList.foldl (assembleGroupSet file.1)
      (file.2.1.groups.toList.foldl (assembleGroup file.1)
        (assembleDaemon escapeDebug a file))).issues = false) :
    hasErrors a.issues = false ∧ (file.2.1.daemon.isSome = true → file.2.2 = true) ∧
      (file.2.1.groupSets.toList.foldl (assembleGroupSet file.1)
        (file.2.1.groups.toList.foldl (assembleGroup file.1)
          (assembleDaemon escapeDebug a file))).Exact
        (groups++file.2.1.groups.toList.map (file.1,·))
        (sets++file.2.1.groupSets.toList.map (file.1,·)) := by
  have hdaemon : hasErrors (assembleDaemon escapeDebug a file).issues = false →
      (assembleDaemon escapeDebug a file).Exact groups sets := fun hd =>
    (daemonTable h escapeDebug hd).2.2
  have hgroups : hasErrors (file.2.1.groups.toList.foldl (assembleGroup file.1)
      (assembleDaemon escapeDebug a file)).issues = false →
      (file.2.1.groups.toList.foldl (assembleGroup file.1) (assembleDaemon escapeDebug a file)).Exact
        (groups++file.2.1.groups.toList.map (file.1,·)) sets := fun hg =>
    (foldGroups hdaemon hg).2
  obtain ⟨hg,hsets⟩ := foldGroupSets hgroups he
  obtain ⟨hd,-⟩ := foldGroups hdaemon hg
  obtain ⟨ha,hmain,-⟩ := daemonTable h escapeDebug hd
  exact ⟨ha,hmain,hsets⟩

theorem file (h : hasErrors a.issues = false → a.Exact groups sets) (escapeDebug : Text → String)
    {file : Parsed} (he : hasErrors (assembleFile escapeDebug a file).issues = false) :
    hasErrors a.issues = false ∧ (file.2.1.daemon.isSome = true → file.2.2 = true) ∧
      (assembleFile escapeDebug a file).Exact (groups++file.2.1.groups.toList.map (file.1,·))
        (sets++file.2.1.groupSets.toList.map (file.1,·)) :=
  have h' : hasErrors a.issues = false →
      ({a with config := {a.config with files := a.config.files++[file.1]}} : Assembly).Exact groups
        sets := fun ha => ⟨(h ha).groups,(h ha).sets⟩
  tables h' escapeDebug he

end Assembly.Exact

/-- Files that are assembled without an error: their tables are declared, and only the main file
has daemon settings. -/
theorem foldl_assembleFile {escapeDebug : Text → String} {files : List Parsed}
    (he : hasErrors (files.foldl (assembleFile escapeDebug) ⟨.default,∅,∅,[]⟩).issues = false) :
    (∀ file ∈ files, file.2.1.daemon.isSome = true → file.2.2 = true) ∧
      (files.foldl (assembleFile escapeDebug) ⟨.default,∅,∅,[]⟩).Exact (groupTables files)
        (setTables files) := by
  induction files using List.reverseRecOn with
  | nil => exact ⟨by simp,.empty,.empty⟩
  | append_singleton done file ih =>
    rw [List.foldl_append] at he ⊢
    obtain ⟨hdone,hmain,hexact⟩ := Assembly.Exact.file (fun he => (ih he).2) escapeDebug he
    refine ⟨?_,by simpa [groupTables,setTables] using hexact⟩
    intro f hf
    rcases List.mem_append.mp hf with hf | hf
    · exact (ih hdone).1 f hf
    · rw [List.mem_singleton.mp hf]
      exact hmain

section
variable {α β γ : Type} {validate : Name → α → PathBuf → Option β × Issues}
  {tables : Parsed → Std.ExtTreeMap Text α} {files : List Parsed} {m : Std.ExtTreeMap Name β}
  {seen : Std.ExtTreeMap Name γ}

/-- The tables of the files, collected under the names that their keys spell. -/
abbrev CollectedFrom (validate : Name → α → PathBuf → Option β × Issues)
    (tables : Parsed → Std.ExtTreeMap Text α) (files : List Parsed) (m : Std.ExtTreeMap Name β)
    (seen : Std.ExtTreeMap Name γ) : Prop :=
  Maps.Collected Declaration.name (Declaration.made validate)
    (files.flatMap fun file => (tables file).toList.map (file.1,·)) m seen

theorem mem_tables {path : PathBuf} {key : Text} {raw : α} :
    ((path,key,raw) ∈ files.flatMap fun file => (tables file).toList.map (file.1,·)) ↔
      ∃ file ∈ files, file.1 = path ∧ (tables file)[key]? = some raw := by
  rw [List.mem_flatMap]
  refine exists_congr fun file => and_congr_right fun _ => ?_
  rw [List.mem_map]
  constructor
  · rintro ⟨e,he,heq⟩
    cases heq
    exact ⟨rfl,Std.ExtTreeMap.mem_toList_iff_getElem?_eq_some.mp he⟩
  · rintro ⟨rfl,hget⟩
    exact ⟨(key,raw),Std.ExtTreeMap.mem_toList_iff_getElem?_eq_some.mpr hget,rfl⟩

/-- A name leads to what the table under it makes. -/
theorem CollectedFrom.get (h : CollectedFrom validate tables files m seen) {name : Name} {b : β} :
    m[name]? = some b ↔ ∃ file ∈ files, ∃ raw, (tables file)[name.text]? = some raw ∧
      (validate name raw file.1).1 = some b := by
  constructor
  · intro hm
    obtain ⟨⟨path,key,raw⟩,he,hname,hmade⟩ := h.origin name b hm
    obtain ⟨file,hf,hpath,hget⟩ := mem_tables.mp he
    simp only [Declaration.made,hname,Option.bind_some] at hmade
    have hkey : key = name.text := Declaration.name_eq_some.mp hname
    subst hkey
    exact ⟨file,hf,raw,hget,hpath ▸ hmade⟩
  · rintro ⟨file,hf,raw,hget,hmade⟩
    have hname : Declaration.name ((file.1,name.text,raw) : Declaration α) = some name :=
      Declaration.name_eq_some.mpr rfl
    obtain ⟨k,b',hk,hb',hm⟩ := h.made _ (mem_tables.mpr ⟨file,hf,rfl,hget⟩)
    rw [hname] at hk
    cases hk
    simp only [Declaration.made,hname,Option.bind_some,hmade] at hb'
    cases hb'
    exact hm

/-- Every table is there. -/
theorem CollectedFrom.mem (h : CollectedFrom validate tables files m seen) {file : Parsed}
    (hf : file ∈ files) {key : Text} (hkey : key ∈ tables file) : ∃ name ∈ m, name.text = key := by
  obtain ⟨raw,hraw⟩ := Option.isSome_iff_exists.mp
    (Std.ExtTreeMap.mem_iff_isSome_getElem?.mp hkey)
  obtain ⟨name,b,hname,-,hm⟩ := h.made (file.1,key,raw) (mem_tables.mpr ⟨file,hf,rfl,hraw⟩)
  refine ⟨name,?_,(Declaration.name_eq_some.mp hname).symm⟩
  rw [Std.ExtTreeMap.mem_iff_isSome_getElem?,hm]
  rfl

/-- No two of the files have a table under one key. -/
theorem CollectedFrom.apart (h : CollectedFrom validate tables files m seen) :
    files.Pairwise fun f f' => ∀ key ∈ tables f, key ∉ tables f' := by
  refine (List.pairwise_flatMap.mp h.once).2.imp ?_
  intro f f' hdiff key hkey hkey'
  have hmem : ∀ {g : Parsed}, key ∈ tables g → ∃ raw, (g.1,key,raw) ∈
      (tables g).toList.map (g.1,·) := by
    intro g hg
    obtain ⟨raw,hraw⟩ := Option.isSome_iff_exists.mp
      (Std.ExtTreeMap.mem_iff_isSome_getElem?.mp hg)
    exact ⟨raw,List.mem_map_of_mem (Std.ExtTreeMap.mem_toList_iff_getElem?_eq_some.mpr hraw)⟩
  obtain ⟨raw,hraw⟩ := hmem hkey
  obtain ⟨raw',hraw'⟩ := hmem hkey'
  exact hdiff _ hraw _ hraw' rfl

end

/-- The groups and sets of an accepted configuration are collected from the tables of its files. -/
theorem load_collected {env : LoadEnv} {options : LoadOptions} {loaded : Loaded}
    (h : load env options = .ok loaded) :
    (∀ file ∈ (loadFiles env options).1, file.2.1.daemon.isSome = true → file.2.2 = true) ∧
      (∃ seen : Std.ExtTreeMap Name PathBuf, CollectedFrom validateGroup (fun file => file.2.1.groups)
        (loadFiles env options).1 loaded.config.groups seen) ∧
      ∃ seen : Std.ExtTreeMap Name PathBuf, CollectedFrom validateGroupSet (fun file => file.2.1.groupSets)
        (loadFiles env options).1 loaded.config.groupSets seen := by
  obtain ⟨hconfig,herrors⟩ := load_ok h
  simp only [assemble,hasErrors_append,Bool.or_eq_false_iff] at hconfig herrors
  rw [hconfig]
  obtain ⟨hmain,hgroups,hsets⟩ := foldl_assembleFile herrors.1
  exact ⟨hmain,⟨_,hgroups⟩,_,hsets⟩

/-- What `load` accepts is what the files declare: a name leads to the group or set that its
table makes, every table is there, no key is in two files, and daemon settings are in the main
file only. -/
theorem load_exact {env : LoadEnv} {options : LoadOptions} {loaded : Loaded}
    (h : load env options = .ok loaded) :
    (∀ name g, loaded.config.groups[name]? = some g ↔ ∃ file ∈ (loadFiles env options).1, ∃ raw,
      file.2.1.groups[name.text]? = some raw ∧ (validateGroup name raw file.1).1 = some g) ∧
    (∀ name set, loaded.config.groupSets[name]? = some set ↔
      ∃ file ∈ (loadFiles env options).1, ∃ raw, file.2.1.groupSets[name.text]? = some raw ∧
        (validateGroupSet name raw file.1).1 = some set) ∧
    (∀ file ∈ (loadFiles env options).1,
      (∀ key ∈ file.2.1.groups, ∃ name ∈ loaded.config.groups, name.text = key) ∧
      (∀ key ∈ file.2.1.groupSets, ∃ name ∈ loaded.config.groupSets, name.text = key) ∧
      (file.2.1.daemon.isSome = true → file.2.2 = true)) ∧
    (loadFiles env options).1.Pairwise fun f f' => (∀ key ∈ f.2.1.groups, key ∉ f'.2.1.groups) ∧
      ∀ key ∈ f.2.1.groupSets, key ∉ f'.2.1.groupSets := by
  obtain ⟨hmain,⟨_,hgroups⟩,_,hsets⟩ := load_collected h
  refine ⟨fun name g => hgroups.get,fun name set => hsets.get,?_,hgroups.apart.and hsets.apart⟩
  exact fun file hf => ⟨fun key => hgroups.mem hf,fun key => hsets.mem hf,hmain file hf⟩

theorem load_exact_run : ∃ file ∈ (loadFiles TargetBeneath.env TargetBeneath.options).1, ∃ raw,
    file.2.1.groupSets[SharedView.setName.text]? = some raw ∧
      (validateGroupSet SharedView.setName raw file.1).1 = some TargetBeneath.set :=
  ((load_exact TargetBeneath.load_eq).2.1 SharedView.setName TargetBeneath.set).mp
    (Option.some_get _).symm

end Byssus
