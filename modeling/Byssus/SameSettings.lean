import Byssus.ConfigLoad

/-! Configuration files under other paths.
The path of a file shows in issues and as the origin of what the file declares; nothing else
depends on it. -/
namespace Byssus

/-- The group without the path of its file. -/
def GroupConfig.unplaced (g : GroupConfig) : GroupConfig := {g with origin := []}

/-- The set without the path of its file. -/
def GroupSetConfig.unplaced (set : GroupSetConfig) : GroupSetConfig := {set with origin := []}

/-- The daemon settings, groups and sets are the same, wherever they were read. -/
structure Config.SameSettings (c c' : Config) : Prop where
  daemon : c.daemon = c'.daemon
  groups : ∀ n : Name,
    c.groups[n]?.map GroupConfig.unplaced = c'.groups[n]?.map GroupConfig.unplaced
  groupSets : ∀ n : Name,
    c.groupSets[n]?.map GroupSetConfig.unplaced = c'.groupSets[n]?.map GroupSetConfig.unplaced

/-! ### Validation -/

theorem hasErrors_checkField {α ε : Type} (message : ε → String) (path : PathBuf) (group : Text)
    (field : String) (r : Except ε α) : hasErrors (checkField message path group field r).2 =
      (checkField message path group field r).1.isNone := by
  cases r <;> rfl

theorem checkField_path {α ε : Type} (message : ε → String) (p p' : PathBuf) (group : Text)
    (field : String) (r : Except ε α) :
    (checkField message p group field r).1 = (checkField message p' group field r).1 := by
  cases r <;> rfl

theorem validateGroup_path (name : Name) (raw : RawGroup) (p p' : PathBuf) :
    (validateGroup name raw p).1.map GroupConfig.unplaced =
      (validateGroup name raw p').1.map GroupConfig.unplaced ∧
    hasErrors (validateGroup name raw p).2 = hasErrors (validateGroup name raw p').2 := by
  unfold validateGroup absField
  simp only [checkField_path _ p p']
  constructor
  · split <;> rfl
  · split <;> simp only [hasErrors_append,hasErrors_checkField,checkField_path _ p p']

/-- The set is what the raw table says, wherever that was read. -/
structure GroupSetConfig.Declared (set : GroupSetConfig) (name : Name) (raw : RawGroupSet) :
    Prop where
  name : set.name = name
  membershipRoot : AbsPath.new raw.membershipRoot = .ok set.membershipRoot
  sourceRoot : AbsPath.new raw.sourceRoot = .ok set.sourceRoot
  source : Template.parseForSet raw.source = .ok set.source
  targetRoot : AbsPath.new raw.targetRoot = .ok set.targetRoot
  target : Template.parseForSet raw.target = .ok set.target
  attrs : set.attrs = rawAttrs raw.readOnly raw.noexec raw.nosymfollow

theorem validateGroupSet_some {name : Name} {raw : RawGroupSet} {p : PathBuf} {set : GroupSetConfig}
    (h : (validateGroupSet name raw p).1 = some set) : set.Declared name raw ∧ set.origin = p := by
  unfold validateGroupSet at h
  simp only at h
  split at h
  · cases h
  · rename_i target _
    split at h
    · cases h
    · split at h
      · rename_i membershipRoot sourceRoot source targetRoot _ _ _ _
        cases h
        exact ⟨⟨rfl,membershipRoot.2,sourceRoot.2,source.2,targetRoot.2,target.2,rfl⟩,rfl⟩
      · cases h

theorem hasErrors_validateGroupSet (name : Name) (raw : RawGroupSet) (p : PathBuf) :
    hasErrors (validateGroupSet name raw p).2 = (validateGroupSet name raw p).1.isNone := by
  unfold validateGroupSet absField
  simp only
  split
  · rename_i ht
    simp [hasErrors_append,hasErrors_checkField,ht]
  · rename_i ht
    split
    · simp [hasErrors_append]
      simp [hasErrors,errorIssue]
    · split
      · rename_i h₁ h₂ h₃ h₄
        simp [hasErrors_append,hasErrors_checkField,ht,h₁,h₂,h₃,h₄]
      · rename_i hno
        simp only [hasErrors_append,hasErrors_checkField,ht]
        by_contra hsome
        simp only [Option.isNone_none,Option.isNone_some,Bool.or_false,Bool.not_eq_true,
          Bool.or_eq_false_iff,Option.isNone_eq_false_iff,Option.isSome_iff_exists] at hsome
        obtain ⟨⟨⟨⟨m,hm⟩,s,hs⟩,t,htr⟩,source,hsource⟩ := hsome
        exact hno m s source t hm hs hsource htr

theorem checkField_of_ok {α ε : Type} {message : ε → String} {path : PathBuf} {group : Text}
    {field : String} {r : Except ε α} {a : α} (h : r = .ok a) :
    (checkField message path group field r).1 = some ⟨a,h⟩ := by
  subst h
  rfl

/-- A declared set is accepted under every path. -/
theorem GroupSetConfig.Declared.validated {name : Name} {raw : RawGroupSet} {set : GroupSetConfig}
    (h : set.Declared name raw) (p : PathBuf) :
    (validateGroupSet name raw p).1 = some {set with origin := p} := by
  cases hv : (validateGroupSet name raw p).1 with
  | some set' =>
    obtain ⟨hd,ho⟩ := validateGroupSet_some hv
    obtain ⟨hn,hm,hs,hso,ht,hta,hat⟩ := h
    obtain ⟨hn',hm',hs',hso',ht',hta',hat'⟩ := hd
    obtain ⟨name,mr,sr,so,tr,ta,d,at1,o,hde,hle⟩ := set
    obtain ⟨name',mr',sr',so',tr',ta',d',at1',o',hde',hle'⟩ := set'
    simp_all
  | none =>
    exfalso
    revert hv
    unfold validateGroupSet absField
    simp only
    split
    · rename_i ht
      rw [checkField_of_ok h.target] at ht
      cases ht
    · rename_i target ht
      rw [checkField_of_ok h.target] at ht
      cases ht
      split
      · rename_i level hm
        rw [checkField_of_ok h.source] at hm
        have hp := List.find?_some hm
        simp only [Bool.and_eq_true,decide_eq_true_eq,Bool.not_eq_true',← set.depth_eq] at hp
        rw [set.levels level hp.1] at hp
        cases hp.2
      · split
        · intro hv
          cases hv
        · rename_i hno
          exact fun _ => hno _ _ _ _ (checkField_of_ok h.membershipRoot)
            (checkField_of_ok h.sourceRoot) (checkField_of_ok h.source)
            (checkField_of_ok h.targetRoot)

theorem validateGroupSet_path (name : Name) (raw : RawGroupSet) (p p' : PathBuf) :
    (validateGroupSet name raw p).1.map GroupSetConfig.unplaced =
      (validateGroupSet name raw p').1.map GroupSetConfig.unplaced ∧
    hasErrors (validateGroupSet name raw p).2 = hasErrors (validateGroupSet name raw p').2 := by
  have hmap : (validateGroupSet name raw p).1.map GroupSetConfig.unplaced =
      (validateGroupSet name raw p').1.map GroupSetConfig.unplaced := by
    cases hv : (validateGroupSet name raw p).1 with
    | some set => rw [(validateGroupSet_some hv).1.validated p']; rfl
    | none =>
      cases hv' : (validateGroupSet name raw p').1 with
      | some set =>
        rw [(validateGroupSet_some hv').1.validated p] at hv
        cases hv
      | none => rfl
  refine ⟨hmap,?_⟩
  have hnone := congrArg Option.isNone hmap
  rwa [Option.isNone_map,Option.isNone_map,← hasErrors_validateGroupSet,
    ← hasErrors_validateGroupSet] at hnone

theorem validateDaemon_path (escapeDebug : Text → String) (raw : RawDaemon) (p p' : PathBuf) :
    (validateDaemon escapeDebug raw p).1 = (validateDaemon escapeDebug raw p').1 ∧
    hasErrors (validateDaemon escapeDebug raw p).2 =
      hasErrors (validateDaemon escapeDebug raw p').2 := by
  obtain ⟨user,stateDir,secs⟩ := raw
  have huser : ∀ user : Text, hasErrors [userIssue escapeDebug p user] =
      hasErrors [userIssue escapeDebug p' user] := fun _ => rfl
  have herror : ∀ message, hasErrors [errorIssue (some p) none message] =
      hasErrors [errorIssue (some p') none message] := fun _ => rfl
  unfold validateDaemon
  simp only [hasErrors_append]
  constructor
  · congr 1
    · cases user <;> simp only; split <;> rfl
    · cases stateDir <;> simp only; split <;> rfl
    · cases secs <;> simp only; split <;> rfl
  · congr 1
    · congr 1
      · cases user <;> simp only; split <;> simp only [huser]
      · cases stateDir <;> simp only; split <;> simp only [herror]
    · cases secs <;> simp only; split <;> simp only [herror]

/-! ### Assembly -/

/-- What is assembled is the same but for the paths. -/
structure Assembly.Alike (a a' : Assembly) : Prop extends a.config.SameSettings a'.config where
  origins : ∀ n : Name, a.origins[n]?.isSome = a'.origins[n]?.isSome
  setOrigins : ∀ n : Name, a.setOrigins[n]?.isSome = a'.setOrigins[n]?.isSome
  errors : hasErrors a.issues = hasErrors a'.issues

namespace Assembly.Alike

variable {a a' : Assembly}

theorem push (h : a.Alike a') {is is' : Issues} (hi : hasErrors is = hasErrors is') :
    (a.push is).Alike (a'.push is') where
  daemon := h.daemon
  groups := h.groups
  groupSets := h.groupSets
  origins := h.origins
  setOrigins := h.setOrigins
  errors := by
    simp only [Assembly.push,hasErrors_append,h.errors,hi]

theorem getElem?_insert {α β : Type} {m m' : Std.ExtTreeMap Name α} {f : α → β}
    (h : ∀ n : Name, m[n]?.map f = m'[n]?.map f) {k : Name} {x y : α} (hxy : f x = f y) (n : Name) :
    (m.insert k x)[n]?.map f = (m'.insert k y)[n]?.map f := by
  rw [Std.ExtTreeMap.getElem?_insert,Std.ExtTreeMap.getElem?_insert]
  split
  · simp [hxy]
  · exact h n

theorem isSome_insert {α : Type} {m m' : Std.ExtTreeMap Name α}
    (h : ∀ n : Name, m[n]?.isSome = m'[n]?.isSome) (k : Name) (x y : α) (n : Name) :
    (m.insert k x)[n]?.isSome = (m'.insert k y)[n]?.isSome := by
  rw [Std.ExtTreeMap.getElem?_insert,Std.ExtTreeMap.getElem?_insert]
  split
  · rfl
  · exact h n

theorem group (h : a.Alike a') (p p' : PathBuf) (entry : Text × RawGroup) :
    (assembleGroup p a entry).Alike (assembleGroup p' a' entry) := by
  unfold assembleGroup
  cases hn : Name.new entry.1 with
  | error e => exact h.push rfl
  | ok name =>
    simp only
    have ho := h.origins name
    cases ha : a.origins[name]? with
    | some first =>
      cases ha' : a'.origins[name]? with
      | none => simp [ha,ha'] at ho
      | some first' => exact h.push rfl
    | none =>
      cases ha' : a'.origins[name]? with
      | some first' => simp [ha,ha'] at ho
      | none =>
        obtain ⟨hmap,herr⟩ := validateGroup_path name entry.2 p p'
        have hpushed := ({h with origins := isSome_insert h.origins name p p'} :
          Alike {a with origins := a.origins.insert name p}
            {a' with origins := a'.origins.insert name p'}).push herr
        cases hv : (validateGroup name entry.2 p).1 with
        | none =>
          cases hv' : (validateGroup name entry.2 p').1 with
          | none => simpa only [hv,hv'] using hpushed
          | some g' => simp [hv,hv'] at hmap
        | some g =>
          cases hv' : (validateGroup name entry.2 p').1 with
          | none => simp [hv,hv'] at hmap
          | some g' =>
            have hg : g.unplaced = g'.unplaced := by simpa [hv,hv'] using hmap
            exact {hpushed with groups := getElem?_insert hpushed.groups hg}

theorem groupSet (h : a.Alike a') (p p' : PathBuf) (entry : Text × RawGroupSet) :
    (assembleGroupSet p a entry).Alike (assembleGroupSet p' a' entry) := by
  unfold assembleGroupSet
  cases hn : Name.new entry.1 with
  | error e => exact h.push rfl
  | ok name =>
    simp only
    have ho := h.setOrigins name
    cases ha : a.setOrigins[name]? with
    | some first =>
      cases ha' : a'.setOrigins[name]? with
      | none => simp [ha,ha'] at ho
      | some first' => exact h.push rfl
    | none =>
      cases ha' : a'.setOrigins[name]? with
      | some first' => simp [ha,ha'] at ho
      | none =>
        obtain ⟨hmap,herr⟩ := validateGroupSet_path name entry.2 p p'
        have hpushed := ({h with setOrigins := isSome_insert h.setOrigins name p p'} :
          Alike {a with setOrigins := a.setOrigins.insert name p}
            {a' with setOrigins := a'.setOrigins.insert name p'}).push herr
        cases hv : (validateGroupSet name entry.2 p).1 with
        | none =>
          cases hv' : (validateGroupSet name entry.2 p').1 with
          | none => simpa only [hv,hv'] using hpushed
          | some set' => simp [hv,hv'] at hmap
        | some set =>
          cases hv' : (validateGroupSet name entry.2 p').1 with
          | none => simp [hv,hv'] at hmap
          | some set' =>
            have hset : set.unplaced = set'.unplaced := by simpa [hv,hv'] using hmap
            have hname : set.unplaced.name = set'.unplaced.name := congrArg GroupSetConfig.name hset
            have hname : set.name = set'.name := hname
            have hsets := getElem?_insert (k := set.name) hpushed.groupSets hset
            rw [hname] at hsets
            exact {hpushed with groupSets := by simpa only [hname] using hsets}

theorem daemonTable (h : a.Alike a') (escapeDebug : Text → String) {f f' : Parsed}
    (hf : f.2 = f'.2) :
    (assembleDaemon escapeDebug a f).Alike (assembleDaemon escapeDebug a' f') := by
  unfold assembleDaemon
  rw [← hf]
  cases f.2.1.daemon with
  | none => exact h
  | some raw =>
    cases f.2.2 with
    | false => exact h.push rfl
    | true =>
      obtain ⟨hd,herr⟩ := validateDaemon_path escapeDebug raw f.1 f'.1
      exact ({h with daemon := hd} : Alike
        {a with config := {a.config with daemon := (validateDaemon escapeDebug raw f.1).1}}
        {a' with config := {a'.config with daemon := (validateDaemon escapeDebug raw f'.1).1}}).push
          herr

theorem foldl {α : Type} {f f' : Assembly → α → Assembly}
    (hf : ∀ {a a' : Assembly} (x : α), a.Alike a' → (f a x).Alike (f' a' x)) (l : List α)
    {a a' : Assembly} (h : a.Alike a') : (l.foldl f a).Alike (l.foldl f' a') := by
  induction l generalizing a a' with
  | nil => exact h
  | cons x l ih => exact ih (hf x h)

theorem file (h : a.Alike a') (escapeDebug : Text → String) {f f' : Parsed} (hf : f.2 = f'.2) :
    (assembleFile escapeDebug a f).Alike (assembleFile escapeDebug a' f') := by
  unfold assembleFile
  rw [← hf]
  have hfiles : Alike {a with config := {a.config with files := a.config.files++[f.1]}}
      {a' with config := {a'.config with files := a'.config.files++[f'.1]}} :=
    ⟨⟨h.daemon,h.groups,h.groupSets⟩,h.origins,h.setOrigins,h.errors⟩
  have hdaemon := hfiles.daemonTable escapeDebug hf
  have hgroups := foldl (fun entry h => h.group f.1 f'.1 entry) f.2.1.groups.toList hdaemon
  exact foldl (fun entry h => h.groupSet f.1 f'.1 entry) f.2.1.groupSets.toList hgroups

/-- Files with the same content are assembled alike. -/
theorem files {fs fs' : List Parsed} (hfs : List.Forall₂ (fun f f' => f.2 = f'.2) fs fs')
    (escapeDebug : Text → String) (h : a.Alike a') :
    (fs.foldl (assembleFile escapeDebug) a).Alike (fs'.foldl (assembleFile escapeDebug) a') := by
  induction hfs generalizing a a' with
  | nil => exact h
  | cons hf _ ih => exact ih (h.file escapeDebug hf)

end Assembly.Alike

/-! ### Checks of the whole configuration -/

theorem hasErrors_flatMap_rel {α β : Type} {R : α → β → Prop} {f : α → Issues} {g : β → Issues}
    (hfg : ∀ a b, R a b → hasErrors (f a) = hasErrors (g b)) {l : List α} {l' : List β}
    (h : List.Forall₂ R l l') : hasErrors (l.flatMap f) = hasErrors (l'.flatMap g) := by
  induction h with
  | nil => rfl
  | cons hab _ ih => rw [List.flatMap_cons,List.flatMap_cons,hasErrors_append,hasErrors_append,
      hfg _ _ hab,ih]

/-- The path does not count as an error where it is checked to be a directory. -/
def LoadEnv.accepts (env : LoadEnv) (path : AbsPath) : Bool :=
  !hasErrors (checkPath env none none "" path)

/-- The directories that a configuration names. -/
def Config.directories (c : Config) : List AbsPath :=
  c.daemon.stateDir::
    ((Maps.values c.groups).flatMap (fun g => [g.sourceRoot,g.targetRoot,g.membership])++
      (Maps.values c.groupSets).flatMap fun s => [s.membershipRoot,s.sourceRoot,s.targetRoot])

theorem hasErrors_checkPath (env : LoadEnv) (origin : Option PathBuf) (group : Option Text)
    (field : String) (path : AbsPath) :
    hasErrors (checkPath env origin group field path) = !env.accepts path := by
  unfold LoadEnv.accepts checkPath
  rw [Bool.not_not]
  split
  · split <;> rfl
  · split <;> rfl

theorem hasErrors_flatMap_eq {α : Type} (f : α → Issues) (l : List α) :
    hasErrors (l.flatMap f) = l.any fun a => hasErrors (f a) := List.any_flatMap

theorem hasErrors_checkPathsExist (env : LoadEnv) (c : Config) :
    hasErrors (checkPathsExist env c) = c.directories.any fun path => !env.accepts path := by
  unfold checkPathsExist Config.directories
  simp only [hasErrors_append,hasErrors_flatMap_eq,hasErrors_checkPath,List.any_cons,List.any_append,
    List.any_flatMap,List.any_nil,Bool.or_false,Bool.or_assoc]

/-- The area without the path of its file. -/
def MembershipArea.unplaced (area : MembershipArea) : MembershipArea := {area with origin := []}

namespace Config.SameSettings

variable {c c' : Config}

theorem groupValues (h : c.SameSettings c') : List.Forall₂ (fun g g' => g.unplaced = g'.unplaced)
    (Maps.values c.groups) (Maps.values c'.groups) :=
  Maps.values_rel h.groups

theorem setValues (h : c.SameSettings c') : List.Forall₂ (fun s s' => s.unplaced = s'.unplaced)
    (Maps.values c.groupSets) (Maps.values c'.groupSets) :=
  Maps.values_rel h.groupSets

theorem areas (h : c.SameSettings c') : List.Forall₂ (fun a a' => a.unplaced = a'.unplaced)
    (membershipAreas c) (membershipAreas c') := by
  unfold membershipAreas
  refine List.rel_append ?_ ?_
  · rw [List.forall₂_map_left_iff,List.forall₂_map_right_iff]
    exact h.groupValues.imp fun _ _ hg => congrArg (fun g : GroupConfig =>
      MembershipArea.mk g.name.display [] g.membership g.targetRoot false) hg
  · rw [List.forall₂_map_left_iff,List.forall₂_map_right_iff]
    exact h.setValues.imp fun _ _ hs => congrArg (fun set : GroupSetConfig =>
      MembershipArea.mk (setLabel set.name.text) [] set.membershipRoot set.targetRoot true) hs

theorem checkAreas_unplaced {a a' b b' : MembershipArea} (ha : a.unplaced = a'.unplaced)
    (hb : b.unplaced = b'.unplaced) :
    hasErrors (checkAreas a b) = hasErrors (checkAreas a' b') := by
  obtain ⟨label,origin,path,targetRoot,isSet⟩ := a
  obtain ⟨label',origin',path',targetRoot',isSet'⟩ := b
  obtain ⟨_,originA,_,_,_⟩ := a'
  obtain ⟨_,originB,_,_,_⟩ := b'
  cases ha
  cases hb
  unfold checkAreas
  rw [hasErrors_append,hasErrors_append]
  congr 1 <;> split <;> rfl

theorem crossGroup (h : c.SameSettings c') :
    hasErrors (checkCrossGroup c) = hasErrors (checkCrossGroup c') :=
  hasErrors_flatMap_rel (R := fun a a' => a.unplaced = a'.unplaced)
    (fun _ _ ha => hasErrors_flatMap_rel (R := fun a a' => a.unplaced = a'.unplaced)
      (fun _ _ hb => checkAreas_unplaced ha hb) h.areas) h.areas

theorem directories (h : c.SameSettings c') : c.directories = c'.directories := by
  have hgroups : List.Forall₂ (· = ·)
      ((Maps.values c.groups).map fun g => [g.sourceRoot,g.targetRoot,g.membership])
      ((Maps.values c'.groups).map fun g => [g.sourceRoot,g.targetRoot,g.membership]) := by
    rw [List.forall₂_map_left_iff,List.forall₂_map_right_iff]
    exact h.groupValues.imp fun _ _ hg => congrArg (fun g : GroupConfig =>
      [g.sourceRoot,g.targetRoot,g.membership]) hg
  have hsets : List.Forall₂ (· = ·)
      ((Maps.values c.groupSets).map fun s => [s.membershipRoot,s.sourceRoot,s.targetRoot])
      ((Maps.values c'.groupSets).map fun s => [s.membershipRoot,s.sourceRoot,s.targetRoot]) := by
    rw [List.forall₂_map_left_iff,List.forall₂_map_right_iff]
    exact h.setValues.imp fun _ _ hs => congrArg (fun s : GroupSetConfig =>
      [s.membershipRoot,s.sourceRoot,s.targetRoot]) hs
  rw [List.forall₂_eq_eq_eq] at hgroups hsets
  simp only [Config.directories,h.daemon,List.flatMap_def,hgroups,hsets]

theorem pathsExist (h : c.SameSettings c') {env env' : LoadEnv}
    (hd : ∀ path ∈ c.directories, env'.accepts path = env.accepts path) :
    hasErrors (checkPathsExist env c) = hasErrors (checkPathsExist env' c') := by
  rw [hasErrors_checkPathsExist,hasErrors_checkPathsExist,← h.directories,Bool.eq_iff_iff,
    List.any_eq_true,List.any_eq_true]
  refine exists_congr fun path => and_congr_right fun hp => ?_
  rw [hd path hp]

end Config.SameSettings

/-- Files with the same content give the same settings, and an error in both or in neither. -/
theorem assemble_alike (escapeDebug : Text → String) {fs fs' : List Parsed}
    (hfs : List.Forall₂ (fun f f' => f.2 = f'.2) fs fs') :
    (assemble escapeDebug fs).1.SameSettings (assemble escapeDebug fs').1 ∧
      hasErrors (assemble escapeDebug fs).2 = hasErrors (assemble escapeDebug fs').2 := by
  have hempty : Assembly.Alike ⟨.default,∅,∅,[]⟩ ⟨.default,∅,∅,[]⟩ :=
    ⟨⟨rfl,fun _ => rfl,fun _ => rfl⟩,fun _ => rfl,fun _ => rfl,rfl⟩
  have h := hempty.files hfs escapeDebug
  refine ⟨h.toSameSettings,?_⟩
  simp only [assemble,hasErrors_append,h.errors,h.toSameSettings.crossGroup]

end Byssus
