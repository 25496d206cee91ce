import Byssus.ConfigLoad
import Byssus.Views
import Mathlib.Algebra.Order.BigOperators.Group.List
import Mathlib.Algebra.Order.Group.Nat

/-! Where membership directories may lie. -/
namespace Byssus

/-- The membership directories of the groups that a configuration declares or that can be
discovered in its sets. -/
inductive Config.MembershipDir (config : Config) : AbsPath → Prop
  | declared {name : Name} {g : GroupConfig} (h : config.groups[name]? = some g) :
      MembershipDir config g.membership
  | discovered {name : Name} {set : GroupSetConfig} {path : List Name} {g : GroupConfig}
      (h : config.groupSets[name]? = some set) (hpath : path.length = set.depth)
      (hg : set.group path hpath = .ok g) : MembershipDir config g.membership

/-- The target roots of the groups and sets of a configuration. -/
inductive Config.TargetRoot (config : Config) : AbsPath → Prop
  | group {name : Name} {g : GroupConfig} (h : config.groups[name]? = some g) :
      TargetRoot config g.targetRoot
  | set {name : Name} {set : GroupSetConfig} (h : config.groupSets[name]? = some set) :
      TargetRoot config set.targetRoot

/-- The lengths of the first levels, and the shortest names for the others. -/
def shortest (levels : List Name) : Placeholder → ℕ
  | none => 0
  | some level =>
    match levels[level.val]? with
    | some n => n.text.length
    | none => 1

/-- The first levels of a group: some names, no more than the set has levels, with which
the components that do not name the member can still fit. -/
structure GroupSetConfig.Begins (set : GroupSetConfig) (levels : List Name) : Prop where
  nonempty : levels ≠ []
  length : levels.length ≤ set.depth
  source : ∀ pieces ∈ set.source.components, Piece.name ∈ pieces ∨
    componentBytes (shortest levels) pieces ≤ maxNameLen
  target : ∀ pieces ∈ set.target.components, Piece.name ∈ pieces ∨
    componentBytes (shortest levels) pieces ≤ maxNameLen

/-- A target root lies beneath the membership root of a set, by the first levels of a group. -/
def Config.TargetInSet (config : Config) : Prop :=
  ∃ (name : Name) (set : GroupSetConfig) (root : AbsPath) (levels : List Name),
    config.groupSets[name]? = some set ∧ config.TargetRoot root ∧ set.Begins levels ∧
      root.components = set.membershipRoot.components++levels.map Name.text

theorem hasErrors_flatMap {α : Type} {f : α → Issues} {l : List α} :
    hasErrors (l.flatMap f) = false ↔ ∀ a ∈ l, hasErrors (f a) = false := by
  induction l with
  | nil => simp [hasErrors]
  | cons a l ih => simp [hasErrors_append,ih]

/-- No area of a checked configuration lies at or beneath a target root. -/
theorem areas_apart {config : Config} (h : hasErrors (checkCrossGroup config) = false)
    {area other : MembershipArea} (ha : area ∈ membershipAreas config)
    (ho : other ∈ membershipAreas config) : area.path.isAtOrBeneath other.targetRoot = false := by
  have hpair := hasErrors_flatMap.mp (hasErrors_flatMap.mp h area ha) other ho
  by_contra hb
  rw [checkAreas,if_pos (by simpa using hb),hasErrors_append] at hpair
  simp [hasErrors,errorIssue] at hpair

theorem group_area {config : Config} {name : Name} {g : GroupConfig}
    (h : config.groups[name]? = some g) : ∃ area ∈ membershipAreas config,
      area.path = g.membership ∧ area.targetRoot = g.targetRoot := by
  refine ⟨_,List.mem_append_left _ (List.mem_map_of_mem (Maps.mem_values.mpr ⟨name,h⟩)),rfl,rfl⟩

theorem set_area {config : Config} {name : Name} {set : GroupSetConfig}
    (h : config.groupSets[name]? = some set) : ∃ area ∈ membershipAreas config,
      area.path = set.membershipRoot ∧ area.targetRoot = set.targetRoot := by
  refine ⟨_,List.mem_append_right _ (List.mem_map_of_mem (Maps.mem_values.mpr ⟨name,h⟩)),rfl,rfl⟩

theorem Config.TargetRoot.area {config : Config} {root : AbsPath} (h : config.TargetRoot root) :
    ∃ area ∈ membershipAreas config, area.targetRoot = root := by
  cases h with
  | group h =>
    obtain ⟨area,ha,-,hr⟩ := group_area h
    exact ⟨area,ha,hr⟩
  | set h =>
    obtain ⟨area,ha,-,hr⟩ := set_area h
    exact ⟨area,ha,hr⟩

theorem componentBytes_le {len len' : Placeholder → ℕ} {pieces : List Piece}
    (h : ∀ v, Piece.ofPlaceholder v ∈ pieces → len v ≤ len' v) :
    componentBytes len pieces ≤ componentBytes len' pieces := by
  unfold componentBytes
  apply List.sum_le_sum
  intro p hp
  cases p with
  | literal text => exact Nat.le_refl _
  | name => exact h none hp
  | level level => exact h (some level) hp

/-- A template can be bound to levels exactly if the lengths of their names fit. -/
theorem bindFits_iff {t : Template} {levels : List Name} : t.BindFits levels ↔
    ∀ pieces ∈ t.components, Piece.name ∈ pieces ∨
      componentBytes (fun v => (assign levels ⟨['a'],by decide⟩ v).length) pieces ≤ maxNameLen := by
  apply forall₂_congr
  intro pieces _
  by_cases hn : Piece.name ∈ pieces
  · simp [hn]
  · rw [flatMap_rawPiece ⟨['a'],by decide⟩ hn,byteLen_textOf (byteLen_assign _ _)]

namespace GroupSetConfig

/-- The first levels of every group of a set fit. -/
theorem begins_take {set : GroupSetConfig} {path : List Name} {h : path.length = set.depth}
    {g : GroupConfig} (hg : set.group path h = .ok g) {k : ℕ} (hk : path.take k ≠ []) :
    set.Begins (path.take k) := by
  obtain ⟨hs,ht⟩ := group_ok_iff.mp ⟨g,hg⟩
  rw [bindFits_iff] at hs ht
  have hle : ∀ t : Template, t.depth ≤ set.depth → ∀ pieces ∈ t.components, Piece.name ∉ pieces →
      componentBytes (shortest (path.take k)) pieces ≤
        componentBytes (fun v => (assign path ⟨['a'],by decide⟩ v).length) pieces := by
    intro t htd pieces hp hn
    apply componentBytes_le
    intro v hv
    cases v with
    | none => exact absurd hv hn
    | some level =>
      have hlt : level.val < path.length := by
        have := Template.level_lt_depth hp hv
        omega
      change shortest _ _ ≤ (levelText path level).length
      rw [levelText_eq hlt]
      by_cases hlk : level.val < k
      · simp [shortest,List.getElem?_take_of_lt hlk,hlt]
      · have hpos := (path[level.val]).length_pos
        simp only [shortest,List.getElem?_take,if_neg hlk]
        omega
  constructor
  · exact hk
  · rw [List.length_take]
    omega
  · intro pieces hp
    by_cases hn : Piece.name ∈ pieces
    · exact .inl hn
    · have hfit := (hs pieces hp).resolve_left hn
      exact .inr ((hle _ set.source_depth_le pieces hp hn).trans hfit)
  · intro pieces hp
    by_cases hn : Piece.name ∈ pieces
    · exact .inl hn
    · have hfit := (ht pieces hp).resolve_left hn
      exact .inr ((hle _ set.target_depth_le pieces hp hn).trans hfit)

/-- First levels that fit belong to a group that the set can have. -/
theorem Begins.group {set : GroupSetConfig} {levels : List Name} (h : set.Begins levels) :
    ∃ (rest : List Name) (hpath : (levels++rest).length = set.depth) (g : GroupConfig),
      set.group (levels++rest) hpath = .ok g := by
  have hlen := h.length
  let rest := List.replicate (set.depth-levels.length) (⟨['a'],by decide⟩ : Name)
  have hpath : (levels++rest).length = set.depth := by
    simp only [List.length_append,rest,List.length_replicate]
    omega
  have heq : ∀ t : Template, t.depth ≤ set.depth → ∀ pieces ∈ t.components, Piece.name ∉ pieces →
      componentBytes (fun v => (assign (levels++rest) ⟨['a'],by decide⟩ v).length) pieces =
        componentBytes (shortest levels) pieces := by
    intro t htd pieces hp hn
    apply componentBytes_congr
    intro v hv
    cases v with
    | none => exact absurd hv hn
    | some level =>
      have hlt : level.val < (levels++rest).length := by
        have := Template.level_lt_depth hp hv
        omega
      change (levelText _ level).length = shortest _ _
      rw [levelText_eq hlt]
      by_cases hl : level.val < levels.length
      · simp [shortest,List.getElem_append_left hl,hl]
      · simp only [shortest,List.getElem?_eq_none (Nat.not_lt.mp hl),
          List.getElem_append_right (Nat.not_lt.mp hl),rest,List.getElem_replicate]
        rfl
  refine ⟨rest,hpath,group_ok_iff.mpr ⟨?_,?_⟩⟩
  · rw [bindFits_iff]
    intro pieces hp
    by_cases hn : Piece.name ∈ pieces
    · exact .inl hn
    · rw [heq _ set.source_depth_le pieces hp hn]
      exact h.source pieces hp
  · rw [bindFits_iff]
    intro pieces hp
    by_cases hn : Piece.name ∈ pieces
    · exact .inl hn
    · rw [heq _ set.target_depth_le pieces hp hn]
      exact h.target pieces hp

end GroupSetConfig

/-- The membership directories of a configuration that loads lie outside all target roots,
exactly if no target root lies where a set can have a group or its first level. -/
theorem membership_outside_targets_iff {env : LoadEnv} {options : LoadOptions} {loaded : Loaded}
    (h : load env options = .ok loaded) :
    (∀ dir, loaded.config.MembershipDir dir → ∀ root, loaded.config.TargetRoot root →
      dir.isAtOrBeneath root = false) ↔ ¬loaded.config.TargetInSet := by
  obtain ⟨hconfig,herrors⟩ := load_ok h
  have hcheck : hasErrors (checkCrossGroup loaded.config) = false := by
    rw [hconfig]
    simp only [assemble,hasErrors_append,Bool.or_eq_false_iff] at herrors ⊢
    exact herrors.2
  constructor
  · intro hout hin
    obtain ⟨name,set,root,levels,hset,hroot,hbegins,hcomp⟩ := hin
    obtain ⟨rest,hpath,g,hg⟩ := hbegins.group
    have hno := hout _ (.discovered hset hpath hg) root hroot
    have hyes : g.membership.isAtOrBeneath root = true := by
      rw [AbsPath.isAtOrBeneath_iff,(GroupSetConfig.group_ok hg).2.2.2.2,
        AbsPath.foldl_joinName_components,hcomp,List.map_append,← List.append_assoc]
      exact List.prefix_append _ _
    rw [hyes] at hno
    cases hno
  · intro hnot dir hdir root hroot
    obtain ⟨other,hother,rfl⟩ := hroot.area
    cases hdir with
    | declared hg =>
      obtain ⟨area,harea,hpath,-⟩ := group_area hg
      rw [← hpath]
      exact areas_apart hcheck harea hother
    | @discovered name set path g hset hpath hg =>
      by_contra hb
      have hpre : other.targetRoot.components <+:
          set.membershipRoot.components++path.map Name.text := by
        rw [← AbsPath.foldl_joinName_components,← (GroupSetConfig.group_ok hg).2.2.2.2]
        exact (AbsPath.isAtOrBeneath_iff _ _).mp (by simpa using hb)
      rcases List.prefix_or_prefix_of_prefix hpre (List.prefix_append _ _) with hle | hle
      · obtain ⟨area,harea,harea',-⟩ := set_area hset
        have hout := areas_apart hcheck harea hother
        rw [harea'] at hout
        have hin := (AbsPath.isAtOrBeneath_iff set.membershipRoot other.targetRoot).mpr hle
        rw [hin] at hout
        cases hout
      · obtain ⟨q,hq⟩ := hle
        rw [← hq,List.prefix_append_right_inj] at hpre
        have hqt : q = (path.take q.length).map Name.text := by
          rw [List.map_take]
          exact List.prefix_iff_eq_take.mp hpre
        by_cases hnil : path.take q.length = []
        · rw [hnil,List.map_nil] at hqt
          obtain ⟨area,harea,harea',-⟩ := set_area hset
          have hout := areas_apart hcheck harea hother
          rw [harea'] at hout
          have hin : set.membershipRoot.isAtOrBeneath other.targetRoot = true := by
            rw [AbsPath.isAtOrBeneath_iff,← hq,hqt,List.append_nil]
          rw [hin] at hout
          cases hout
        · apply hnot
          refine ⟨name,set,other.targetRoot,path.take q.length,hset,hroot,
            GroupSetConfig.begins_take hg hnil,?_⟩
          rw [← hqt,hq]

/-! A set whose target root lies beneath its membership root. -/
namespace TargetBeneath

open SharedView (setName a)

/-- The main file. -/
def text : Text := "[group_sets.set]
membership_root = \"/members\"
source_root = \"/data\"
source = \"\x7bname\x7d\"
target_root = \"/members/a\"
target = \"\x7bgroup\x7d/\x7bname\x7d\"
".toList

def rawSet : RawGroupSet where
  membershipRoot := "/members".toList
  sourceRoot := "/data".toList
  source := "\x7bname\x7d".toList
  targetRoot := "/members/a".toList
  target := "\x7bgroup\x7d/\x7bname\x7d".toList
  readOnly := none
  noexec := none
  nosymfollow := none

def rawFile : RawFile := ⟨none,∅,(∅ : Std.ExtTreeMap Text RawGroupSet).insert "set".toList rawSet⟩

/-- Every path is a directory of root, except for the main file. -/
def env : LoadEnv where
  canonicalize := .ok
  openDir := fun _ => .ok (.ok ⟨0,0o755,false,true⟩)
  openFile := fun _ _ => .ok ⟨.ok ⟨0,0o644,true,false⟩,.ok text⟩
  readDir := fun _ => .error ⟨.notFound,"No such file or directory (os error 2)"⟩
  metadata := fun _ => .ok ⟨0,0o755,false,true⟩
  parse := fun s => if s = text then .ok rawFile else .error "no such document"
  escapeDebug := String.ofList

def options : LoadOptions where
  mainFile := pathOf "/etc/byssus/byssus.toml".toList
  mainFileRequired := false
  configDir := pathOf "/etc/byssus/conf.d".toList
  configDirRequired := false
  ownership := .enforce
  trustedUid := 0
  checkPaths := true
  fragmentChanges := ⟨[],[]⟩

def loaded : Loaded := (load env options).toOption.get (by decide +kernel)

theorem load_eq : load env options = .ok loaded :=
  Program.ok_of_toOption (Option.some_get _).symm

theorem membership_outside_targets_iff_run :
    (∀ dir, loaded.config.MembershipDir dir → ∀ root, loaded.config.TargetRoot root →
      dir.isAtOrBeneath root = false) ↔ ¬loaded.config.TargetInSet :=
  membership_outside_targets_iff load_eq

def set : GroupSetConfig := loaded.config.groupSets[setName]?.get (by decide +kernel)

theorem length_eq : [a].length = set.depth := by decide +kernel

def group : GroupConfig := (set.group [a] length_eq).toOption.get (by decide +kernel)

/-- The configuration loads, and the membership directory of its group `a` is the target root. -/
theorem membership_in_target : load env options = .ok loaded ∧
    loaded.config.MembershipDir group.membership ∧ loaded.config.TargetRoot set.targetRoot ∧
    group.membership.isAtOrBeneath set.targetRoot = true := by
  have hset : loaded.config.groupSets[setName]? = some set := (Option.some_get _).symm
  refine ⟨load_eq,?_,.set hset,by decide +kernel⟩
  exact .discovered hset length_eq (Program.ok_of_toOption (Option.some_get _).symm)

end TargetBeneath
end Byssus
