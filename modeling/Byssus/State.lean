import Byssus.Path
import Mathlib.Data.Finset.Basic

/-! Mount identities and the records of the mounts Byssus created. -/
namespace Byssus

structure DevIno where
  devMajor : ℕ
  devMinor : ℕ
  ino : ℕ
  deriving DecidableEq

/-- The identity of an attached mount as read with `statx` on its root. -/
structure MountIdentity where
  mntId : ℕ
  mntIdUnique : Option ℕ
  root : DevIno
  deriving DecidableEq

/-- `MountIdentity::matches`: `self` is observed, `recorded` comes from a record.  A unique
ID on both sides is authoritative; otherwise the reusable one decides. -/
def MountIdentity.matches (self recorded : MountIdentity) : Bool :=
  if self.root ≠ recorded.root then false
  else match self.mntIdUnique,recorded.mntIdUnique with
    | some observed,some expected => observed == expected
    | _,_ => self.mntId == recorded.mntId

@[simp] theorem MountIdentity.matches_self (a : MountIdentity) : a.matches a = true := by
  cases h : a.mntIdUnique <;> simp [MountIdentity.matches,h]

theorem MountIdentity.matches_comm (a b : MountIdentity) : a.matches b = b.matches a := by
  by_cases hr : a.root = b.root
  · cases ha : a.mntIdUnique <;> cases hb : b.mntIdUnique <;>
      simp [MountIdentity.matches,hr,ha,hb,BEq.comm]
  · have hr' : b.root ≠ a.root := fun h => hr h.symm
    simp [MountIdentity.matches,hr,hr']

/-- The configurable attributes; `nosuid` and `nodev` are always applied. -/
structure MountAttrs where
  readOnly : Bool
  noexec : Bool
  nosymfollow : Bool
  deriving DecidableEq

/-- `MountAttrs::default`. -/
def MountAttrs.default : MountAttrs := ⟨true,true,false⟩

structure RecordKey where
  group : GroupId
  name : Name
  deriving DecidableEq

instance : Ord RecordKey := ⟨compareLex (compareOn RecordKey.group) (compareOn RecordKey.name)⟩
instance : Std.TransOrd RecordKey :=
  inferInstanceAs (Std.TransCmp (compareLex (compareOn RecordKey.group) (compareOn RecordKey.name)))
instance : Std.LawfulEqOrd RecordKey := KeyOrder.lawfulEq_compareLex fun a b h₁ h₂ => by
  cases a; cases b; simp_all

/-- A `jiff` timestamp, in nanoseconds since the epoch. -/
abbrev Timestamp := ℤ

structure MountRecord where
  group : GroupId
  name : Name
  sourceRoot : AbsPath
  source : Text
  targetRoot : AbsPath
  target : Text
  mntId : ℕ
  mntIdUnique : Option ℕ
  rootDevMajor : ℕ
  rootDevMinor : ℕ
  rootIno : ℕ
  readOnly : Bool
  noexec : Bool
  nosymfollow : Bool
  createdAt : Timestamp
  deriving DecidableEq

namespace MountRecord

def identity (r : MountRecord) : MountIdentity where
  mntId := r.mntId
  mntIdUnique := r.mntIdUnique
  root := ⟨r.rootDevMajor,r.rootDevMinor,r.rootIno⟩

def attrs (r : MountRecord) : MountAttrs := ⟨r.readOnly,r.noexec,r.nosymfollow⟩

def key (r : MountRecord) : RecordKey := ⟨r.group,r.name⟩

def sourceLocation (r : MountRecord) : Location := ⟨r.sourceRoot,r.source⟩

def targetLocation (r : MountRecord) : Location := ⟨r.targetRoot,r.target⟩

@[simp] theorem key_group (r : MountRecord) : r.key.group = r.group := rfl

end MountRecord

/-- `is_clean_relative`: a non-empty relative path with no empty, `.` or `..` components. -/
def isCleanRelative (path : Text) : Bool :=
  path ≠ [] && !path.contains nul &&
    (path.splitOn '/').all fun c => c ≠ [] && c ≠ ['.'] && c ≠ ['.','.']

theorem isCleanRelative_iff {path : Text} :
    isCleanRelative path = true ↔ ∀ c ∈ path.splitOn '/', isPlain c = true := by
  simp only [isCleanRelative,Bool.and_eq_true,decide_eq_true_eq,Bool.not_eq_true',
    List.contains_eq_mem,decide_eq_false_iff_not,List.all_eq_true,isPlain_iff]
  constructor
  · intro h c hc
    exact ⟨(h.2 c hc).1.1,(h.2 c hc).1.2,(h.2 c hc).2,Lists.notMem_of_mem_splitOn hc,
      fun h0 => h.1.2 (Lists.mem_of_mem_splitOn hc h0)⟩
  · intro h
    refine ⟨⟨?_,?_⟩,fun c hc => ⟨⟨(h c hc).1,(h c hc).2.1⟩,(h c hc).2.2.1⟩⟩
    · rintro rfl
      exact (h [] (by simp)).1 rfl
    · intro h0
      rw [← (List.intercalate_splitOn '/' : _ = path)] at h0
      rcases Lists.mem_intercalate h0 with h0 | ⟨c,hc,h0⟩
      · exact absurd h0 (by decide)
      · exact (h c hc).2.2.2.2 h0

/-- Plain components make a clean path, and can be read back from it. -/
theorem isCleanRelative_intercalate {cs : List Text} (hne : cs ≠ [])
    (h : ∀ c ∈ cs, isPlain c = true) : isCleanRelative (List.intercalate ['/'] cs) = true := by
  rw [isCleanRelative_iff,List.splitOn_intercalate '/'
    (fun c hc => ((isPlain_iff c).mp (h c hc)).2.2.2.1) hne]
  exact h

/-- The in-memory records.  Every record is filed under its own key, because
`State::insert` is the only way in. -/
structure State where
  map : Std.ExtTreeMap RecordKey MountRecord
  keyed : ∀ (k : RecordKey) (r : MountRecord), map[k]? = some r → r.key = k

namespace State

/-- `State::default`. -/
def empty : State := ⟨∅,by simp⟩

def get (s : State) (k : RecordKey) : Option MountRecord := s.map[k]?

/-- `State::insert`, with the previous record. -/
def insert (s : State) (r : MountRecord) : State × Option MountRecord where
  fst :=
    { map := s.map.insert r.key r
      keyed := by
        intro k r' h
        rw [Std.ExtTreeMap.getElem?_insert] at h
        split at h
        · rename_i hk
          cases h
          exact Std.LawfulEqCmp.eq_of_compare hk
        · exact s.keyed k r' h }
  snd := s.get r.key

/-- `State::remove`. -/
def remove (s : State) (k : RecordKey) : State where
  map := s.map.erase k
  keyed := by
    intro k' r h
    rw [Std.ExtTreeMap.getElem?_erase] at h
    split at h
    · cases h
    · exact s.keyed k' r h

/-- `State::records`: ordered by group, then member. -/
def records (s : State) : List MountRecord := s.map.toList.map Prod.snd

@[simp] theorem get_empty (k : RecordKey) : empty.get k = none := by simp [get,empty]

@[simp] theorem get_insert (s : State) (r : MountRecord) (k : RecordKey) :
    (s.insert r).1.get k = if r.key = k then some r else s.get k := by
  simp [get,insert,Std.ExtTreeMap.getElem?_insert,Std.LawfulEqCmp.compare_eq_iff_eq]

@[simp] theorem insert_previous (s : State) (r : MountRecord) :
    (s.insert r).2 = s.get r.key := rfl

@[simp] theorem get_remove (s : State) (k k' : RecordKey) :
    (s.remove k).get k' = if k = k' then none else s.get k' := by
  simp [get,remove,Std.ExtTreeMap.getElem?_erase,Std.LawfulEqCmp.compare_eq_iff_eq]

theorem key_of_get {s : State} {k : RecordKey} {r : MountRecord} (h : s.get k = some r) :
    r.key = k := s.keyed k r h

theorem mem_records {s : State} {r : MountRecord} : r ∈ s.records ↔ s.get r.key = some r := by
  simp only [records,List.mem_map,Prod.exists,exists_eq_right,
    Std.ExtTreeMap.mem_toList_iff_getElem?_eq_some,get]
  constructor
  · rintro ⟨k,h⟩
    rwa [s.keyed k r h]
  · intro h
    exact ⟨r.key,h⟩

theorem mem_records_of_get {s : State} {k : RecordKey} {r : MountRecord}
    (h : s.get k = some r) : r ∈ s.records := by
  rw [mem_records,key_of_get h]
  exact h

theorem eq_of_key_eq {s : State} {r r' : MountRecord} (h : r ∈ s.records) (h' : r' ∈ s.records)
    (hk : r.key = r'.key) : r = r' := by
  have hg := mem_records.mp h
  rw [hk,mem_records.mp h'] at hg
  exact (Option.some.inj hg).symm

/-- No two records share a key, so each is listed once. -/
theorem records_keys_nodup (s : State) : (s.records.map MountRecord.key).Nodup := by
  have hd := s.map.distinct_keys_toList
  simp only [records,List.map_map]
  rw [List.Nodup,List.pairwise_map]
  refine hd.imp_of_mem ?_
  rintro ⟨k,r⟩ ⟨k',r'⟩ h h' hne
  have hk := s.keyed k r (Std.ExtTreeMap.mem_toList_iff_getElem?_eq_some.mp h)
  have hk' := s.keyed k' r' (Std.ExtTreeMap.mem_toList_iff_getElem?_eq_some.mp h')
  simp only [Function.comp_apply,hk,hk']
  intro he
  exact hne (by simp [he])

@[ext] theorem ext {s t : State} (h : ∀ k, s.get k = t.get k) : s = t := by
  cases s; cases t
  simp only [State.mk.injEq]
  exact Std.ExtTreeMap.ext_getElem? h

end State
end Byssus
