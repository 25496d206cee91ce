import Byssus.Interpolation
import Byssus.ReadErrors

/-! What makes a pass mount something: an empty regular file in the membership directory of a
group, listed in that pass, whose name is substituted in the group's own templates. -/
namespace Byssus

variable {H : Type}

/-! ### Entries of a membership directory -/

/-- The file name that spells the name byte for byte. -/
def Name.bytes (n : Name) : List UInt8 := n.text.flatMap String.utf8EncodeChar

theorem Name.fromBytes_iff {bytes : List UInt8} {n : Name} :
    fromBytes bytes = .ok n ↔ bytes = n.bytes := by
  have hn : fromBytes n.bytes = .ok n := new_text n
  constructor
  · intro h
    exact fromBytes_unique h hn
  · rintro rfl
    exact hn

theorem classify_ok_iff {fileName : List UInt8} {kind : Except String EntryKind} {n : Name} :
    classify fileName kind = .ok n ↔ fileName = n.bytes ∧ kind = .ok (.regular 0) := by
  rw [← Name.fromBytes_iff]
  unfold classify
  cases Name.fromBytes fileName with
  | error e => simp
  | ok m =>
    cases kind with
    | error e => simp
    | ok kind =>
      cases kind with
      | regular size => by_cases h : size = 0 <;> simp [h]
      | directory => simp
      | symlink => simp
      | fifo => simp
      | socket => simp
      | charDevice => simp
      | blockDevice => simp
      | unknown => simp

/-- An entry as it is listed, with its type or why it cannot be inspected. -/
abbrev MembershipEntry := List UInt8 × Except String EntryKind

namespace MembershipEntry

/-- The entry is `.` or `..`. -/
def Dots (e : MembershipEntry) : Prop := e.1 = [dotByte] ∨ e.1 = [dotByte,dotByte]

instance (e : MembershipEntry) : Decidable e.Dots := by unfold Dots; infer_instance

def hidden (e : MembershipEntry) : Bool := e.1.head? = some dotByte

/-- The member that the entry makes. -/
def member (e : MembershipEntry) : Option Name :=
  if e.hidden then none else (classify e.1 e.2).toOption

/-- The rejection of the entry. -/
def rejection (e : MembershipEntry) : Option Rejection :=
  if e.hidden then none
  else match classify e.1 e.2 with
    | .ok _ => none
    | .error rejection => some rejection

/-- How the entry is listed among the ignored ones. -/
def ignored (e : MembershipEntry) : Option Text :=
  if e.hidden ∧ ¬e.Dots then some (displayBytes e.1) else none

theorem Dots.hidden {e : MembershipEntry} (h : e.Dots) : e.hidden = true := by
  rcases h with h | h <;> simp [MembershipEntry.hidden,h]

/-- An entry other than `.` and `..` is put in exactly one place. -/
theorem count_places (e : MembershipEntry) :
    [e.member.isSome,e.rejection.isSome,e.ignored.isSome].count true = if e.Dots then 0 else 1 := by
  by_cases hd : e.Dots
  · simp [member,rejection,ignored,hd,hd.hidden]
  · by_cases hh : e.hidden = true
    · simp [member,rejection,ignored,hd,hh]
    · cases hc : classify e.1 e.2 <;> simp [member,rejection,ignored,hd,hh,hc,Except.toOption]

theorem member_iff {e : MembershipEntry} {n : Name} :
    e.member = some n ↔ e = (n.bytes,.ok (.regular 0)) := by
  obtain ⟨fileName,kind⟩ := e
  have hopt : (classify fileName kind).toOption = some n ↔
      fileName = n.bytes ∧ kind = .ok (.regular 0) := by
    rw [← classify_ok_iff]
    cases classify fileName kind <;> simp [Except.toOption]
  have hvisible : fileName = n.bytes → hidden (fileName,kind) = false := by
    rintro rfl
    simpa [hidden] using Name.fromBytes_visible (Name.fromBytes_iff.mpr rfl)
  rw [Prod.mk.injEq,← hopt]
  unfold member
  constructor
  · intro h
    split_ifs at h
    exact h
  · intro h
    rw [hvisible (hopt.mp h).1]
    simpa using h

end MembershipEntry

/-- One entry goes where it belongs. -/
theorem addEntry_spec (m : Membership) (e : MembershipEntry) :
    (∀ n, n ∈ (m.addEntry e).members ↔ n ∈ m.members ∨ e.member = some n) ∧
      (m.addEntry e).rejected = m.rejected++e.rejection.toList ∧
      (m.addEntry e).ignored = m.ignored++e.ignored.toList := by
  obtain ⟨fileName,kind⟩ := e
  by_cases hd : MembershipEntry.Dots (fileName,kind)
  · have hm : m.addEntry (fileName,kind) = m := if_pos hd
    rw [hm]
    simp [MembershipEntry.member,MembershipEntry.rejection,MembershipEntry.ignored,hd,hd.hidden]
  · have hd' : ¬(fileName = [dotByte] ∨ fileName = [dotByte,dotByte]) := hd
    by_cases hh : MembershipEntry.hidden (fileName,kind) = true
    · have hh' : fileName.head? = some dotByte := by simpa [MembershipEntry.hidden] using hh
      simp [Membership.addEntry,MembershipEntry.member,MembershipEntry.rejection,
        MembershipEntry.ignored,hd,hd',hh,hh']
    · have hh' : fileName.head? ≠ some dotByte := by simpa [MembershipEntry.hidden] using hh
      cases hc : classify fileName kind with
      | error rejection =>
        simp [Membership.addEntry,MembershipEntry.member,MembershipEntry.rejection,
          MembershipEntry.ignored,hd,hd',hh,hh',hc,Except.toOption]
      | ok name =>
        simp [Membership.addEntry,MembershipEntry.member,MembershipEntry.rejection,
          MembershipEntry.ignored,hd,hd',hh,hh',hc,Except.toOption,or_comm]

/-- The entries are distributed over members, rejections and ignored entries. -/
theorem fromEntries_spec (entries : List MembershipEntry) :
    (∀ n, n ∈ (Membership.fromEntries entries).members ↔ (n.bytes,.ok (.regular 0)) ∈ entries) ∧
      (Membership.fromEntries entries).rejected = entries.filterMap MembershipEntry.rejection ∧
      (Membership.fromEntries entries).ignored = entries.filterMap MembershipEntry.ignored := by
  unfold Membership.fromEntries
  refine Lists.foldl_induction (P := fun (done : List MembershipEntry) (m : Membership) =>
    (∀ n, n ∈ m.members ↔ (n.bytes,.ok (.regular 0)) ∈ done) ∧
      m.rejected = done.filterMap MembershipEntry.rejection ∧
      m.ignored = done.filterMap MembershipEntry.ignored) ?_ ?_ entries
  · exact ⟨by simp,rfl,rfl⟩
  rintro done (e : MembershipEntry) m ⟨hm,hr,hi⟩
  obtain ⟨hm',hr',hi'⟩ := addEntry_spec m e
  refine ⟨fun n => ?_,?_,?_⟩
  · rw [hm',hm,MembershipEntry.member_iff]
    simp [eq_comm]
  · rw [hr',hr,List.filterMap_append]
    cases h : e.rejection <;> simp [h]
  · rw [hi',hi,List.filterMap_append]
    cases h : e.ignored <;> simp [h]

/-- The listing of the directory contains an empty regular file of that very name. -/
def ScanEnv.Authorises (env : ScanEnv H) (dir : H) (n : Name) : Prop :=
  ∃ names, env.readDir dir = .ok (names,none) ∧ n.bytes ∈ names ∧
    env.statx dir n.bytes = .ok (.regular 0)

theorem scanMembership_authorises {env : ScanEnv H} {dir : H} {m : Membership} {n : Name}
    (h : scanMembership env dir = .ok m) (hn : n ∈ m.members) : env.Authorises dir n := by
  unfold scanMembership at h
  split at h
  · cases h
  · cases h
  · rename_i names hread
    cases h
    rw [(fromEntries_spec _).1,List.mem_map] at hn
    obtain ⟨fileName,hmem,heq⟩ := hn
    obtain ⟨rfl,hkind⟩ := Prod.mk.inj heq
    refine ⟨names,hread,(List.mem_filter.mp hmem).1,?_⟩
    cases hs : env.statx dir n.bytes with
    | error e =>
      rw [hs] at hkind
      cases hkind
    | ok kind =>
      rw [hs] at hkind
      cases hkind
      rfl

/-! ### Locations -/

/-- The mount is at the locations that the templates give for the levels and the member's name,
beneath the given roots, with the given attributes. -/
structure DesiredMount.From (d : DesiredMount) (sourceRoot : AbsPath) (source : Template)
    (targetRoot : AbsPath) (target : Template) (attrs : MountAttrs) (levels : List Name) :
    Prop where
  source : d.source = ⟨sourceRoot,List.intercalate ['/'] (source.substituted levels d.key.name)⟩
  target : d.target = ⟨targetRoot,List.intercalate ['/'] (target.substituted levels d.key.name)⟩
  attrs : d.attrs = attrs

theorem interpolate_substituted {t : Template} (ht : t.depth = 0) {name : Name} {p : Text}
    (h : t.interpolate name = .ok p) : p = List.intercalate ['/'] (t.substituted [] name) := by
  rw [substituted_nil]
  exact ((Template.interpolate_ok_iff ht).mp h).2.2

theorem desiredMount_from {id : GroupId} {config : GroupConfig} {n : Name} {d : DesiredMount}
    (h : desiredMount id config n = .ok d) :
    d.From config.sourceRoot config.source config.targetRoot config.target config.attrs [] := by
  have hname : d.key.name = n := by rw [desiredMount_key h]
  obtain ⟨hs,hsr,ht,htr⟩ := desiredMount_ok h
  have hattrs : d.attrs = config.attrs := by
    unfold desiredMount at h
    split at h <;> cases h
    rfl
  refine ⟨?_,?_,hattrs⟩
  · rw [hname,← hsr,← interpolate_substituted config.sourceBound hs]
  · rw [hname,← htr,← interpolate_substituted config.targetBound ht]

/-- A group of a set takes its roots and attributes from the set. -/
theorem group_inherits {set : GroupSetConfig} {path : List Name} {h : path.length = set.depth}
    {g : GroupConfig} (hg : set.group path h = .ok g) :
    g.sourceRoot = set.sourceRoot ∧ g.attrs = set.attrs := by
  unfold GroupSetConfig.group at hg
  split at hg
  · cases hg
  · split at hg
    · cases hg
    · cases hg
      exact ⟨rfl,rfl⟩

theorem DesiredMount.From.of_group {set : GroupSetConfig} {path : List Name}
    {h : path.length = set.depth} {g : GroupConfig} {d : DesiredMount}
    (hg : set.group path h = .ok g)
    (hd : d.From g.sourceRoot g.source g.targetRoot g.target g.attrs []) :
    d.From set.sourceRoot set.source set.targetRoot set.target set.attrs path := by
  obtain ⟨hsource,htarget,-,hroot,-⟩ := GroupSetConfig.group_ok hg
  obtain ⟨hsroot,hattrs⟩ := group_inherits hg
  refine ⟨?_,?_,hd.attrs.trans hattrs⟩
  · rw [hd.source,hsroot,bindLevels_substituted hsource]
  · rw [hd.target,hroot,bindLevels_substituted htarget]

/-- Every planned mount is for an entry of the group's membership directory as it was listed in
this pass, at the locations of the group's own templates; and every entry of such a listing is a
member, rejected or ignored. -/
theorem plan_mount_authorised (env : PassEnv H) (runtime : Runtime H) (state : State)
    (degraded : Degraded) :
    (∀ d, Action.mount d ∈ (plan (passInput env runtime state degraded)).steps.map Step.action →
      (∃ g, d.key.group.set = none ∧ runtime.groups[d.key.group]? = some g ∧
        env.Authorises g.membershipDir d.key.name ∧
        d.From g.config.sourceRoot g.config.source g.config.targetRoot g.config.target
          g.config.attrs []) ∨
      ∃ s set levels dir, d.key.group = .inSet s levels ∧ runtime.sets[s]? = some set ∧
        s ∉ degraded.sets ∧ env.Scannable set ∧ levels.length = set.config.depth ∧
        env.Walks set.rootDir levels dir ∧ env.Authorises dir d.key.name ∧
        d.From set.config.sourceRoot set.config.source set.config.targetRoot set.config.target
          set.config.attrs levels) ∧
    ∀ entries : List MembershipEntry,
      (∀ n, n ∈ (Membership.fromEntries entries).members ↔
        ∃ e ∈ entries, e.member = some n) ∧
      (Membership.fromEntries entries).rejected = entries.filterMap MembershipEntry.rejection ∧
      (Membership.fromEntries entries).ignored = entries.filterMap MembershipEntry.ignored ∧
      ∀ e ∈ entries, [e.member.isSome,e.rejection.isSome,e.ignored.isSome].count true =
        if e.Dots then 0 else 1 := by
  constructor
  · intro d hd
    have hacc := ((plan_mount_iff _ d).mp hd).1
    obtain ⟨-,g,m,hpresent,hscan,hmem,hok⟩ := mem_desired.mp hacc.mem
    have hauth := scanMembership_authorises hscan hmem
    have hfrom := desiredMount_from hok
    rcases hpresent with ⟨hset,hg⟩ | ⟨⟨s,set,hs,hskip,hscannable,levels,hwalk,hlen,hgroup⟩,hname⟩
    · exact .inl ⟨g,hset,hg,hauth,hfrom⟩
    · have hid : d.key.group = .inSet s levels := by
        rw [← hname,(GroupSetConfig.group_ok hgroup).2.2.1,runtime.sets_keyed s set hs]
        rfl
      exact .inr ⟨s,set,levels,g.membershipDir,hid,hs,hskip,hscannable,hlen,hwalk,hauth,
        hfrom.of_group hgroup⟩
  · intro entries
    obtain ⟨hm,hr,hi⟩ := fromEntries_spec entries
    refine ⟨fun n => ?_,hr,hi,fun e _ => e.count_places⟩
    simp [hm,MembershipEntry.member_iff]

/-! A set whose group directory holds one empty file. -/
namespace SampleMember

open Sample UntypedEntry

/-- The root holds the directory `a`, which holds the empty file `b`. -/
def env : PassEnv ℕ where
  readDir := fun dir => .ok (if dir = 0 then [[97]] else [[46],[98]],none)
  statx := fun dir _ => .ok (if dir = 0 then .directory else .regular 0)
  openDir := fun _ _ => .ok 1
  isDeleted := fun _ => .ok false
  strerror := fun _ => "Input/output error (os error 5)"
  rootError := fun _ => none
  resolveDir := fun _ => .ok (dir 42)
  inspect := fun _ => .notMounted

def member : DesiredMount := ⟨⟨UntypedEntry.group,b⟩,data "b",view "a/b",.default⟩

theorem member_planned : Action.mount member ∈
    (plan (passInput env (runtimeOf set) (state []) ⟨∅,∅⟩)).steps.map Step.action := by
  decide +kernel

theorem plan_mount_authorised_run : ∃ dir, env.Walks 0 [a] dir ∧ env.Authorises dir b := by
  rcases (plan_mount_authorised env (runtimeOf set) (state []) ⟨∅,∅⟩).1 member member_planned with
    ⟨g,hset,-⟩ | ⟨s,found,levels,dir,hid,hs,-,-,-,hwalk,hauth,-⟩
  · cases hset
  · obtain ⟨rfl,rfl⟩ := GroupId.inSet_inj.mp hid
    rw [sets_get] at hs
    cases hs
    exact ⟨dir,hwalk,hauth⟩

end SampleMember
end Byssus
