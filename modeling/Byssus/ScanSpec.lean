import Byssus.Runtime
import Byssus.Library.Maps

/-! What the scan of a group set finds and what it cannot read.
A path of level names is followed through the answers of the operating system; the
recursive scan reports exactly the groups and the unreadable directories on such paths. -/
namespace Byssus

variable {H : Type}

theorem charFrom_injective : Function.Injective charFrom := by
  intro a b h
  have hv : ∀ b : UInt8, b.toNat.isValidChar := by
    intro b
    have hb := b.toNat_lt
    exact .inl (by omega)
  have hn : ∀ b : UInt8, (charFrom b).toNat = b.toNat := by
    intro b
    unfold charFrom Char.ofNat
    rw [dif_pos (hv b)]
    rfl
  have hh := hn a
  rw [h,hn b] at hh
  exact UInt8.toNat_inj.mp hh.symm

theorem Name.fromBytes_unique {bytes bytes' : List UInt8} {n : Name}
    (h : fromBytes bytes = .ok n) (h' : fromBytes bytes' = .ok n) : bytes = bytes' := by
  apply List.map_injective_iff.mpr charFrom_injective
  rw [← fromBytes_text h,← fromBytes_text h']

/-- A name is not hidden. -/
theorem Name.fromBytes_visible {bytes : List UInt8} {n : Name} (h : fromBytes bytes = .ok n) :
    bytes.head? ≠ some dotByte := by
  intro hd
  apply n.head_ne_dot
  rw [fromBytes_text h,List.head?_map,hd]
  rfl

namespace ScanEnv

variable (env : ScanEnv H)

/-- The file name of `n` is listed in `dir`. -/
def Lists (dir : H) (n : Name) (fileName : List UInt8) : Prop :=
  Name.fromBytes fileName = .ok n ∧ ∃ names failed, env.readDir dir = .ok (names,failed) ∧
    fileName ∈ names

/-- The entry `n` of `dir` is opened as the directory `sub`. -/
def Enters (dir : H) (n : Name) (sub : H) : Prop :=
  ∃ fileName, env.Lists dir n fileName ∧ env.statx dir fileName = .ok .directory ∧
    env.openDir dir fileName = .ok sub

/-- The entry `n` of `dir` is a directory that exists and cannot be opened. -/
def Shut (dir : H) (n : Name) : Prop :=
  ∃ fileName e, env.Lists dir n fileName ∧ env.statx dir fileName = .ok .directory ∧
    env.openDir dir fileName = .error e ∧ e ≠ .noent

/-- The type check of the entry `n` of `dir` fails, and not because it vanished. -/
def Untyped (dir : H) (n : Name) : Prop :=
  ∃ fileName e, env.Lists dir n fileName ∧ env.statx dir fileName = .error e ∧ e ≠ .noent

/-- The error that ends the listing of `dir`. -/
def listingError (dir : H) : Option Errno :=
  match env.readDir dir with
  | .error e => some e
  | .ok (_,failed) => failed

def ListingFails (dir : H) : Prop := (env.listingError dir).isSome

/-- Following `path` from `dir` leads to `sub`. -/
def Walks : H → List Name → H → Prop
  | dir,[],sub => sub = dir
  | dir,n::rest,sub => ∃ next, env.Enters dir n next ∧ Walks next rest sub

/-- Following `path` from a directory with `levels` levels beneath it ends at a directory
that cannot be opened or not be listed to its end. -/
def Unread : ℕ → H → List Name → Prop
  | 0,_,_ => False
  | _+1,dir,[] => env.ListingFails dir
  | levels+1,dir,n::rest =>
    (rest = [] ∧ env.Shut dir n) ∨ ∃ next, env.Enters dir n next ∧ Unread levels next rest

/-- Following `path` from a directory with `levels` levels beneath it ends at a directory
above the last level that is listed to its end. -/
def Listed : ℕ → H → List Name → Prop
  | 0,_,_ => False
  | _+1,dir,[] => ¬env.ListingFails dir
  | levels+1,dir,n::rest => ∃ next, env.Enters dir n next ∧ Listed levels next rest

/-- A group whose directory some path from `dir` leads to. -/
def Found (set : GroupSetConfig) (dir : H) (above : List Name) (g : GroupRuntime H) : Prop :=
  ∃ rest, env.Walks dir rest g.membershipDir ∧
    ∃ h : (above++rest).length = set.depth, set.group (above++rest) h = .ok g.config

variable {env}

theorem Lists.unique {dir : H} {n : Name} {f f' : List UInt8} (h : env.Lists dir n f)
    (h' : env.Lists dir n f') : f = f' := Name.fromBytes_unique h.1 h'.1

theorem Enters.unique {dir sub sub' : H} {n : Name} (h : env.Enters dir n sub)
    (h' : env.Enters dir n sub') : sub = sub' := by
  obtain ⟨f,hf,-,ho⟩ := h
  obtain ⟨f',hf',-,ho'⟩ := h'
  rw [hf.unique hf',ho'] at ho
  exact (Except.ok.inj ho).symm

theorem Enters.not_untyped {dir sub : H} {n : Name} (h : env.Enters dir n sub) :
    ¬env.Untyped dir n := by
  rintro ⟨f',e,hf',hs',-⟩
  obtain ⟨f,hf,hs,-⟩ := h
  rw [hf.unique hf',hs'] at hs
  cases hs

theorem Walks.unique {dir sub sub' : H} {path : List Name} (h : env.Walks dir path sub)
    (h' : env.Walks dir path sub') : sub = sub' := by
  induction path generalizing dir with
  | nil => exact h.trans h'.symm
  | cons n rest ih =>
    obtain ⟨next,hn,hw⟩ := h
    obtain ⟨next',hn',hw'⟩ := h'
    rw [hn.unique hn'] at hw
    exact ih hw hw'

end ScanEnv

/-! ### The recursive scan -/

/-- An observer of the scan: `holds` becomes true with a group, an unreadable directory or
an intermediate directory that has the given property, and with nothing else. -/
structure Observer (H : Type) where
  holds : SetScan H → Prop
  group : GroupRuntime H → Prop
  unreadable : GroupId → Prop
  intermediate : GroupId → AbsPath → Prop

structure Observer.Lawful (o : Observer H) (env : ScanEnv H) : Prop where
  note : ∀ (scan : SetScan H) (n : Note), o.holds (scan.note n) ↔ o.holds scan
  unreadable : ∀ (scan : SetScan H) (id : GroupId) (e : Errno),
    o.holds (scan.unreadable env id e) ↔ o.holds scan ∨ o.unreadable id
  group : ∀ (scan : SetScan H) (g : GroupRuntime H),
    o.holds (scan.addGroup g) ↔ o.holds scan ∨ o.group g
  intermediate : ∀ (scan : SetScan H) (id : GroupId) (path : AbsPath),
    o.holds (scan.addIntermediate id path) ↔ o.holds scan ∨ o.intermediate id path

/-- What there is to see at or beneath `dir`, which lies at `above`. -/
def Seen (env : ScanEnv H) (set : GroupSetConfig) (o : Observer H) (levels : ℕ) (dir : H)
    (above : List Name) : Prop :=
  (∃ g, env.Found set dir above g ∧ o.group g) ∨
    (∃ rest, env.Unread levels dir rest ∧ o.unreadable (.inSet set.name (above++rest))) ∨
    ∃ rest, env.Listed levels dir rest ∧ o.intermediate (.inSet set.name (above++rest))
      ((above++rest).foldl AbsPath.joinName set.membershipRoot)

/-- What there is to see beneath the entries of `dir`. -/
def SeenBelow (env : ScanEnv H) (set : GroupSetConfig) (o : Observer H) (levels : ℕ) (dir : H)
    (above : List Name) : Prop :=
  ∃ n, (∃ sub, env.Enters dir n sub ∧ Seen env set o levels sub (above++[n])) ∨
    (env.Shut dir n ∧ o.unreadable (.inSet set.name (above++[n])))

variable {env : ScanEnv H} {set : GroupSetConfig} {o : Observer H}

theorem classifySetEntry_some {dir : H} {fileName : List UInt8} {n : Name} :
    classifySetEntry env dir fileName = .ok (some n) ↔
      Name.fromBytes fileName = .ok n ∧ env.statx dir fileName = .ok .directory := by
  unfold classifySetEntry
  cases hn : Name.fromBytes fileName with
  | error e => simp
  | ok name =>
    cases hs : env.statx dir fileName with
    | error e => cases e <;> simp
    | ok kind => cases kind <;> simp

/-- One entry: it is opened and what is beneath it is seen, or it cannot be opened. -/
theorem scanEntry_holds {levels : ℕ} {dir : H} {above : set.Prefix (levels+1)}
    {descend : Text → set.Prefix levels → H → SetScan H → SetScan H} (ho : o.Lawful env)
    (hd : ∀ displayName path opened scan, o.holds (descend displayName path opened scan) ↔
      o.holds scan ∨ Seen env set o levels opened path.1)
    (scan : SetScan H) (fileName : List UInt8) :
    o.holds (scanEntry env set dir above descend scan fileName) ↔ o.holds scan ∨ ∃ n,
      Name.fromBytes fileName = .ok n ∧ env.statx dir fileName = .ok .directory ∧
        ((∃ sub, env.openDir dir fileName = .ok sub ∧
            Seen env set o levels sub (above.1++[n])) ∨
          ∃ e, env.openDir dir fileName = .error e ∧ e ≠ .noent ∧
            o.unreadable (.inSet set.name (above.1++[n]))) := by
  unfold scanEntry
  have hnone : (∀ n, classifySetEntry env dir fileName ≠ .ok (some n)) → ¬∃ n,
      Name.fromBytes fileName = .ok n ∧ env.statx dir fileName = .ok .directory ∧
        ((∃ sub, env.openDir dir fileName = .ok sub ∧
            Seen env set o levels sub (above.1++[n])) ∨
          ∃ e, env.openDir dir fileName = .error e ∧ e ≠ .noent ∧
            o.unreadable (.inSet set.name (above.1++[n]))) := by
    rintro h ⟨n,hn,hs,-⟩
    exact h n (classifySetEntry_some.mpr ⟨hn,hs⟩)
  by_cases hdot : fileName.head? = some dotByte
  · have hn : ∀ n, classifySetEntry env dir fileName ≠ .ok (some n) := by
      intro n hc
      exact Name.fromBytes_visible (classifySetEntry_some.mp hc).1 hdot
    simp [hdot,hnone hn]
  · rw [if_neg hdot]
    cases hc : classifySetEntry env dir fileName with
    | error reason =>
      simp only [ho.note,hnone (by simp [hc]),or_false]
    | ok found =>
      cases found with
      | none => simp only [hnone (by simp [hc]),or_false]
      | some name =>
        obtain ⟨hn,hs⟩ := classifySetEntry_some.mp hc
        cases hopen : env.openDir dir fileName with
        | error e => cases e <;> simp [hn,hs,ho.unreadable,GroupSetConfig.Prefix.push]
        | ok opened => simp [hn,hs,hd,GroupSetConfig.Prefix.push]

/-- What is seen at a directory is whether it is listed, and what is seen beneath its entries. -/
theorem seen_succ {levels : ℕ} {dir : H} {above : set.Prefix (levels+1)} :
    Seen env set o (levels+1) dir above.1 ↔ SeenBelow env set o levels dir above.1 ∨
      (env.ListingFails dir ∧ o.unreadable (.inSet set.name above.1)) ∨
      (¬env.ListingFails dir ∧ o.intermediate (.inSet set.name above.1)
        (above.1.foldl AbsPath.joinName set.membershipRoot)) := by
  constructor
  · rintro (⟨g,⟨path,hw,hl,hg⟩,hG⟩ | ⟨path,hu,hR⟩ | ⟨path,hl,hM⟩)
    · cases path with
      | nil =>
        have ha := above.2
        simp only [List.append_nil] at hl
        omega
      | cons n rest =>
        obtain ⟨next,hn,hw⟩ := hw
        refine .inl ⟨n,.inl ⟨next,hn,.inl ⟨g,⟨rest,hw,?_⟩,hG⟩⟩⟩
        simp only [List.append_assoc,List.singleton_append]
        exact ⟨hl,hg⟩
    · cases path with
      | nil => exact .inr (.inl ⟨hu,by simpa using hR⟩)
      | cons n rest =>
        rcases hu with ⟨rfl,hs⟩ | ⟨next,hn,hu⟩
        · exact .inl ⟨n,.inr ⟨hs,hR⟩⟩
        · refine .inl ⟨n,.inl ⟨next,hn,.inr (.inl ⟨rest,hu,?_⟩)⟩⟩
          simpa using hR
    · cases path with
      | nil => exact .inr (.inr ⟨hl,by simpa using hM⟩)
      | cons n rest =>
        obtain ⟨next,hn,hl⟩ := hl
        refine .inl ⟨n,.inl ⟨next,hn,.inr (.inr ⟨rest,hl,?_⟩)⟩⟩
        simpa using hM
  · rintro (⟨n,⟨sub,hn,⟨g,⟨path,hw,hl,hg⟩,hG⟩ | ⟨path,hu,hR⟩ | ⟨path,hl,hM⟩⟩ | ⟨hs,hR⟩⟩ |
      ⟨hf,hR⟩ | ⟨hf,hM⟩)
    · refine .inl ⟨g,⟨n::path,⟨sub,hn,hw⟩,?_⟩,hG⟩
      simp only [List.append_assoc,List.singleton_append] at hl hg
      exact ⟨hl,hg⟩
    · refine .inr (.inl ⟨n::path,.inr ⟨sub,hn,hu⟩,?_⟩)
      simpa using hR
    · refine .inr (.inr ⟨n::path,⟨sub,hn,hl⟩,?_⟩)
      simpa using hM
    · exact .inr (.inl ⟨[n],.inl ⟨rfl,hs⟩,hR⟩)
    · exact .inr (.inl ⟨[],hf,by simpa using hR⟩)
    · exact .inr (.inr ⟨[],hf,by simpa using hM⟩)

/-- The listing of a directory, given what is done with its opened entries. -/
theorem scanLevel_succ_holds {levels : ℕ} (ho : o.Lawful env)
    (hd : ∀ displayName path opened scan,
      o.holds (scanOpened env set levels (scanLevel env set levels) displayName path opened scan) ↔
        o.holds scan ∨ Seen env set o levels opened path.1)
    (dir : H) (above : set.Prefix (levels+1)) (scan : SetScan H) :
    (scanLevel env set (levels+1) dir above scan).2 = env.listingError dir ∧
      (o.holds (scanLevel env set (levels+1) dir above scan).1 ↔
        o.holds scan ∨ SeenBelow env set o levels dir above.1) := by
  unfold scanLevel ScanEnv.listingError SeenBelow
  cases hr : env.readDir dir with
  | error e => simp [ScanEnv.Enters,ScanEnv.Shut,ScanEnv.Lists,hr]
  | ok listing =>
    obtain ⟨names,failed⟩ := listing
    refine ⟨rfl,?_⟩
    rw [Lists.foldl_or_iff (scanEntry_holds ho hd)]
    apply or_congr_right
    constructor
    · rintro ⟨fileName,hm,n,hn,hs,⟨sub,ho,hseen⟩ | ⟨e,ho,he,hR⟩⟩
      · exact ⟨n,.inl ⟨sub,⟨fileName,⟨hn,names,failed,hr,hm⟩,hs,ho⟩,hseen⟩⟩
      · exact ⟨n,.inr ⟨⟨fileName,e,⟨hn,names,failed,hr,hm⟩,hs,ho,he⟩,hR⟩⟩
    · rintro ⟨n,⟨sub,⟨fileName,⟨hn,names',failed',hr',hm⟩,hs,ho⟩,hseen⟩ |
        ⟨⟨fileName,e,⟨hn,names',failed',hr',hm⟩,hs,ho,he⟩,hR⟩⟩
      · rw [hr] at hr'
        cases hr'
        exact ⟨fileName,hm,n,hn,hs,.inl ⟨sub,ho,hseen⟩⟩
      · rw [hr] at hr'
        cases hr'
        exact ⟨fileName,hm,n,hn,hs,.inr ⟨e,ho,he,hR⟩⟩

/-- What is done with an opened directory shows exactly what is seen there. -/
theorem scanOpened_holds (ho : o.Lawful env) (levels : ℕ) (displayName : Text)
    (path : set.Prefix levels) (opened : H) (scan : SetScan H) :
    o.holds (scanOpened env set levels (scanLevel env set levels) displayName path opened scan) ↔
      o.holds scan ∨ Seen env set o levels opened path.1 := by
  induction levels generalizing displayName opened scan with
  | zero =>
    have hlen : path.1.length = set.depth := path.2
    have hfound : ∀ g : GroupRuntime H, env.Found set opened path.1 g ↔
        g.membershipDir = opened ∧ set.groupAt path = .ok g.config := by
      intro g
      constructor
      · rintro ⟨rest,hw,hl,hg⟩
        have hnil : rest = [] := by
          rw [← List.length_eq_zero_iff]
          simp only [List.length_append] at hl
          omega
        subst hnil
        simp only [List.append_nil] at hg
        exact ⟨hw,hg⟩
      · rintro ⟨hm,hg⟩
        refine ⟨[],hm,?_⟩
        simp only [List.append_nil]
        exact ⟨hlen,hg⟩
    simp only [scanOpened,Seen,hfound,ScanEnv.Unread,ScanEnv.Listed,false_and,exists_false,or_false]
    cases hg : set.groupAt path with
    | error e => simp [ho.note]
    | ok config =>
      rw [ho.group]
      apply or_congr_right
      constructor
      · intro hG
        exact ⟨⟨config,opened⟩,⟨rfl,rfl⟩,hG⟩
      · rintro ⟨⟨config',dir⟩,⟨rfl,hc⟩,hG⟩
        cases hc
        exact hG
  | succ levels ih =>
    have hspec := scanLevel_succ_holds ho (fun d p o s => ih d p o s) opened path scan
    obtain ⟨herr,hQ⟩ := hspec
    rw [seen_succ]
    cases hout : scanLevel env set (levels+1) opened path scan with
    | mk found failed =>
      rw [hout] at herr hQ
      cases failed with
      | some e =>
        have hf : env.ListingFails opened := by simp [ScanEnv.ListingFails,← herr]
        simp only [scanOpened,hout,ho.unreadable,hQ,hf,true_and,not_true_eq_false,false_and,
          or_false]
        exact or_assoc
      | none =>
        have hf : ¬env.ListingFails opened := by simp [ScanEnv.ListingFails,← herr]
        simp only [scanOpened,hout,ho.intermediate,hQ,hf,false_and,false_or,not_false_eq_true,
          true_and]
        exact or_assoc

/-! ### Sets -/

namespace ScanEnv

variable (env)

/-- The membership root is there and is listed to its end. -/
def Scannable (set : SetRuntime H) : Prop :=
  (env.isDeleted set.rootDir).toOption.getD false = false ∧ ¬env.ListingFails set.rootDir

/-- The group belongs to a set that is scanned, and a path leads to its directory. -/
def Discovered (runtime : Runtime H) (skip : Finset Name) (g : GroupRuntime H) : Prop :=
  ∃ s set, runtime.sets[s]? = some set ∧ s ∉ skip ∧ env.Scannable set ∧
    env.Found set.config set.rootDir [] g

/-- A directory beneath the root of a scanned set cannot be opened or listed. -/
def Unavailable (runtime : Runtime H) (skip : Finset Name) (id : GroupId) : Prop :=
  ∃ s set path, runtime.sets[s]? = some set ∧ s ∉ skip ∧ env.Scannable set ∧ path ≠ [] ∧
    env.Unread set.config.depth set.rootDir path ∧ id = .inSet s path

end ScanEnv

variable {runtime : Runtime H} {skip : Finset Name}

theorem discoverSet_cases (ho : o.Lawful env) (s : SetRuntime H) :
    (env.Scannable s ∧ ∃ scan, discoverSet env s = .ok scan ∧
        (o.holds scan ↔ o.holds .empty ∨
          SeenBelow env s.config o (s.config.depth-1) s.rootDir [])) ∨
      (¬env.Scannable s ∧ ∃ note, discoverSet env s = .error note) := by
  unfold discoverSet ScanEnv.Scannable
  by_cases hdel : (env.isDeleted s.rootDir).toOption.getD false = true
  · exact .inr ⟨by simp [hdel],by simp [hdel]⟩
  · have hspec : ∀ levels (above : s.config.Prefix levels), 0 < levels →
        (scanLevel env s.config levels s.rootDir above .empty).2 = env.listingError s.rootDir ∧
          (o.holds (scanLevel env s.config levels s.rootDir above .empty).1 ↔
            o.holds .empty ∨ SeenBelow env s.config o (levels-1) s.rootDir above.1) := by
      intro levels above hpos
      obtain ⟨k,rfl⟩ := Nat.exists_eq_succ_of_ne_zero hpos.ne'
      exact scanLevel_succ_holds ho (scanOpened_holds ho k) s.rootDir above .empty
    obtain ⟨herr,hQ⟩ := hspec _ s.config.rootPrefix s.config.depth_pos
    cases hout : scanLevel env s.config s.config.depth s.rootDir s.config.rootPrefix .empty with
    | mk scan failed =>
      rw [hout] at herr hQ
      cases failed with
      | none =>
        have hf : ¬env.ListingFails s.rootDir := by simp [ScanEnv.ListingFails,← herr]
        exact .inl ⟨⟨by simpa using hdel,hf⟩,scan,by simp [hdel],hQ⟩
      | some e =>
        have hf : env.ListingFails s.rootDir := by simp [ScanEnv.ListingFails,← herr]
        exact .inr ⟨by simp [hf],by simp [hdel]⟩

/-- What is seen beneath the root of a set: groups, and what paths that are not empty lead to. -/
theorem seenBelow_root {s : GroupSetConfig} {dir : H} :
    SeenBelow env s o (s.depth-1) dir [] ↔ (∃ g, env.Found s dir [] g ∧ o.group g) ∨
      (∃ path, path ≠ [] ∧ env.Unread s.depth dir path ∧ o.unreadable (.inSet s.name path)) ∨
      ∃ path, path ≠ [] ∧ env.Listed s.depth dir path ∧ o.intermediate (.inSet s.name path)
        (path.foldl AbsPath.joinName s.membershipRoot) := by
  obtain ⟨k,hk⟩ := Nat.exists_eq_succ_of_ne_zero s.depth_pos.ne'
  have hroot : ∀ p : List Name → Prop, (∃ path, path ≠ [] ∧ p path) ↔ ∃ n rest, p (n::rest) := by
    intro p
    constructor
    · rintro ⟨path,hne,hp⟩
      cases path with
      | nil => exact absurd rfl hne
      | cons n rest => exact ⟨n,rest,hp⟩
    · rintro ⟨n,rest,hp⟩
      exact ⟨n::rest,by simp,hp⟩
  rw [hk,hroot,hroot]
  constructor
  · rintro ⟨n,⟨sub,hn,⟨g,⟨path,hw,hl,hg⟩,hG⟩ | ⟨path,hu,hR⟩ | ⟨path,hl,hM⟩⟩ | ⟨hs,hR⟩⟩
    · exact .inl ⟨g,⟨n::path,⟨sub,hn,hw⟩,hl,hg⟩,hG⟩
    · exact .inr (.inl ⟨n,path,.inr ⟨sub,hn,hu⟩,hR⟩)
    · exact .inr (.inr ⟨n,path,⟨sub,hn,hl⟩,hM⟩)
    · exact .inr (.inl ⟨n,[],.inl ⟨rfl,hs⟩,hR⟩)
  · rintro (⟨g,⟨path,hw,hl,hg⟩,hG⟩ | ⟨n,rest,⟨rfl,hs⟩ | ⟨next,hn,hu⟩,hR⟩ |
      ⟨n,rest,⟨next,hn,hl⟩,hM⟩)
    · cases path with
      | nil =>
        simp only [List.append_nil,List.length_nil] at hl
        omega
      | cons n rest =>
        obtain ⟨next,hn,hw⟩ := hw
        exact ⟨n,.inl ⟨next,hn,.inl ⟨g,⟨rest,hw,hl,hg⟩,hG⟩⟩⟩
    · exact ⟨n,.inr ⟨hs,hR⟩⟩
    · exact ⟨n,.inl ⟨next,hn,.inr (.inl ⟨rest,hu,hR⟩)⟩⟩
    · exact ⟨n,.inl ⟨next,hn,.inr (.inr ⟨rest,hl,hM⟩)⟩⟩

/-- The observer that waits for a group. -/
def Observer.ofGroup (g : GroupRuntime H) : Observer H where
  holds := fun scan => g ∈ scan.groups
  group := fun g' => g = g'
  unreadable := fun _ => False
  intermediate := fun _ _ => False

/-- The observer that waits for an unreadable directory. -/
def Observer.ofUnavailable (id : GroupId) : Observer H where
  holds := fun scan => id ∈ scan.unavailable
  group := fun _ => False
  unreadable := fun id' => id = id'
  intermediate := fun _ _ => False

/-- The observer that waits for an intermediate directory. -/
def Observer.ofIntermediate (entry : GroupId × AbsPath) : Observer H where
  holds := fun scan => entry ∈ scan.intermediates
  group := fun _ => False
  unreadable := fun _ => False
  intermediate := fun id path => entry = (id,path)

theorem Observer.ofGroup_lawful (g : GroupRuntime H) : (ofGroup g).Lawful env where
  note := by simp [ofGroup,SetScan.note]
  unreadable := by simp [ofGroup,SetScan.unreadable]
  group := by simp [ofGroup,SetScan.addGroup]
  intermediate := by simp [ofGroup,SetScan.addIntermediate]

theorem Observer.ofUnavailable_lawful (id : GroupId) : (ofUnavailable id).Lawful env where
  note := by simp [ofUnavailable,SetScan.note]
  unreadable := by simp [ofUnavailable,SetScan.unreadable]
  group := by simp [ofUnavailable,SetScan.addGroup]
  intermediate := by simp [ofUnavailable,SetScan.addIntermediate]

theorem Observer.ofIntermediate_lawful (entry : GroupId × AbsPath) :
    (ofIntermediate entry).Lawful env where
  note := by simp [ofIntermediate,SetScan.note]
  unreadable := by simp [ofIntermediate,SetScan.unreadable]
  group := by simp [ofIntermediate,SetScan.addGroup]
  intermediate := by simp [ofIntermediate,SetScan.addIntermediate]

/-- A successful scan of a set reports exactly the groups, the unreadable directories and
the intermediate directories. -/
theorem discoverSet_ok {s : SetRuntime H} {scan : SetScan H} (h : discoverSet env s = .ok scan) :
    env.Scannable s ∧ (∀ g, g ∈ scan.groups ↔ env.Found s.config s.rootDir [] g) ∧
      (∀ id, id ∈ scan.unavailable ↔ ∃ path, path ≠ [] ∧
        env.Unread s.config.depth s.rootDir path ∧ id = .inSet s.config.name path) ∧
      ∀ entry, entry ∈ scan.intermediates ↔ ∃ path, path ≠ [] ∧
        env.Listed s.config.depth s.rootDir path ∧ entry = (.inSet s.config.name path,
          path.foldl AbsPath.joinName s.config.membershipRoot) := by
  have hcase : ∀ {o : Observer H}, o.Lawful env → env.Scannable s ∧
      (o.holds scan ↔ o.holds .empty ∨
        SeenBelow env s.config o (s.config.depth-1) s.rootDir []) := by
    intro o ho
    rcases discoverSet_cases ho s with ⟨hs,scan',hd,hQ⟩ | ⟨-,note,hd⟩
    · rw [h] at hd
      cases hd
      exact ⟨hs,hQ⟩
    · rw [h] at hd
      cases hd
  refine ⟨(hcase (Observer.ofUnavailable_lawful ⟨none,[]⟩)).1,fun g => ?_,fun id => ?_,
    fun entry => ?_⟩
  · have hg := (hcase (Observer.ofGroup_lawful g)).2
    rw [seenBelow_root] at hg
    simpa [Observer.ofGroup,SetScan.empty] using hg
  · have hid := (hcase (Observer.ofUnavailable_lawful id)).2
    rw [seenBelow_root] at hid
    simpa [Observer.ofUnavailable,SetScan.empty] using hid
  · have he := (hcase (Observer.ofIntermediate_lawful entry)).2
    rw [seenBelow_root] at he
    simpa [Observer.ofIntermediate,SetScan.empty] using he

theorem discoverSet_error {s : SetRuntime H} {note : Note} (h : discoverSet env s = .error note) :
    ¬env.Scannable s := by
  intro hs
  rcases discoverSet_cases (Observer.ofUnavailable_lawful ⟨none,[]⟩) s with ⟨-,scan,hd,-⟩ | ⟨hn,-⟩
  · rw [h] at hd
    cases hd
  · exact hn hs

theorem ScanEnv.Found.name {s : GroupSetConfig} {dir : H} {g : GroupRuntime H}
    (h : env.Found s dir [] g) :
    ∃ path, path.length = s.depth ∧ env.Walks dir path g.membershipDir ∧
      g.config.name = .inSet s.name path := by
  obtain ⟨path,hw,hl,hg⟩ := h
  exact ⟨path,hl,hw,(GroupSetConfig.group_ok hg).2.2.1⟩

/-- A group's name determines it: the same path leads to one directory only. -/
theorem ScanEnv.Found.unique {s : GroupSetConfig} {dir : H} {g g' : GroupRuntime H}
    (h : env.Found s dir [] g) (h' : env.Found s dir [] g') (hname : g.config.name = g'.config.name) :
    g = g' := by
  obtain ⟨path,hw,hl,hg⟩ := h
  obtain ⟨path',hw',hl',hg'⟩ := h'
  have hp : path = path' := by
    have hn := (GroupSetConfig.group_ok hg).2.2.1
    rw [hname,(GroupSetConfig.group_ok hg').2.2.1] at hn
    exact (GroupId.inSet_inj.mp hn).2.symm
  subst hp
  have hc : g.config = g'.config := by
    rw [hg] at hg'
    exact Except.ok.inj hg'
  cases g
  cases g'
  simp only [GroupRuntime.mk.injEq]
  exact ⟨hc,hw.unique hw'⟩

/-! ### Discovery -/

/-- The groups that the scan of one set contributes. -/
def groupsOf (env : ScanEnv H) (skip : Finset Name) (entry : Name × SetRuntime H) :
    List (GroupRuntime H) :=
  if entry.1 ∈ skip then []
  else match discoverSet env entry.2 with
    | .ok scan => scan.groups
    | .error _ => []

theorem mem_groupsOf {entry : Name × SetRuntime H} {g : GroupRuntime H} :
    g ∈ groupsOf env skip entry ↔ entry.1 ∉ skip ∧ env.Scannable entry.2 ∧
      env.Found entry.2.config entry.2.rootDir [] g := by
  unfold groupsOf
  by_cases hskip : entry.1 ∈ skip
  · simp [hskip]
  · cases hd : discoverSet env entry.2 with
    | ok scan =>
      obtain ⟨hs,hg,-,-⟩ := discoverSet_ok hd
      simp [hskip,hs,hg]
    | error note => simp [hskip,discoverSet_error hd]

/-- The intermediate directories that the scan of one set contributes. -/
def intermediatesOf (env : ScanEnv H) (skip : Finset Name) (entry : Name × SetRuntime H) :
    List (GroupId × AbsPath) :=
  if entry.1 ∈ skip then []
  else match discoverSet env entry.2 with
    | .ok scan => scan.intermediates
    | .error _ => []

theorem mem_intermediatesOf {entry : Name × SetRuntime H} {dir : GroupId × AbsPath} :
    dir ∈ intermediatesOf env skip entry ↔ entry.1 ∉ skip ∧ env.Scannable entry.2 ∧
      ∃ path, path ≠ [] ∧ env.Listed entry.2.config.depth entry.2.rootDir path ∧
        dir = (.inSet entry.2.config.name path,
          path.foldl AbsPath.joinName entry.2.config.membershipRoot) := by
  unfold intermediatesOf
  by_cases hskip : entry.1 ∈ skip
  · simp [hskip]
  · cases hd : discoverSet env entry.2 with
    | ok scan =>
      obtain ⟨hs,-,-,hi⟩ := discoverSet_ok hd
      simp [hskip,hs,hi]
    | error note => simp [hskip,discoverSet_error hd]

theorem discoverStep_skip {acc : Runtime H × Discovery} {entry : Name × SetRuntime H}
    (h : entry.1 ∈ skip) : Runtime.discoverStep env skip acc entry = acc := by
  simp [Runtime.discoverStep,h]

theorem discoverStep_ok {acc : Runtime H × Discovery} {entry : Name × SetRuntime H}
    {scan : SetScan H} (h : entry.1 ∉ skip) (hd : discoverSet env entry.2 = .ok scan) :
    Runtime.discoverStep env skip acc entry =
      ((scan.groups.foldl Runtime.insertGroup acc.1).extendIntermediates scan.intermediates,
        ⟨acc.2.notes++scan.notes,acc.2.unavailable ∪ scan.unavailable.toFinset,
          acc.2.unavailableSets,insert entry.1 acc.2.scannedSets⟩) := by
  simp [Runtime.discoverStep,h,hd]

theorem discoverStep_error {acc : Runtime H × Discovery} {entry : Name × SetRuntime H}
    {note : Note} (h : entry.1 ∉ skip) (hd : discoverSet env entry.2 = .error note) :
    Runtime.discoverStep env skip acc entry =
      (acc.1,⟨acc.2.notes++[note],acc.2.unavailable,insert entry.1 acc.2.unavailableSets,
        acc.2.scannedSets⟩) := by
  simp [Runtime.discoverStep,h,hd]

theorem foldl_insertGroup (l : List (GroupRuntime H)) (rt : Runtime H) :
    (l.foldl Runtime.insertGroup rt).sets = rt.sets ∧
      (l.foldl Runtime.insertGroup rt).groups =
        l.foldl (fun m g => m.insert g.config.name g) rt.groups ∧
      (l.foldl Runtime.insertGroup rt).intermediates = rt.intermediates := by
  induction l generalizing rt with
  | nil => exact ⟨rfl,rfl,rfl⟩
  | cons g l ih => exact ih (rt.insertGroup g)

theorem foldl_discoverStep (entries : List (Name × SetRuntime H)) (acc : Runtime H × Discovery) :
    (entries.foldl (Runtime.discoverStep env skip) acc).1.sets = acc.1.sets ∧
      (entries.foldl (Runtime.discoverStep env skip) acc).1.groups =
        (entries.flatMap (groupsOf env skip)).foldl (fun m g => m.insert g.config.name g)
          acc.1.groups ∧
      (entries.foldl (Runtime.discoverStep env skip) acc).1.intermediates =
        (entries.flatMap (intermediatesOf env skip)).foldl (fun m e => m.insert e.1 e.2)
          acc.1.intermediates := by
  induction entries generalizing acc with
  | nil => exact ⟨rfl,rfl,rfl⟩
  | cons entry entries ih =>
    have hstep : (Runtime.discoverStep env skip acc entry).1.sets = acc.1.sets ∧
        (Runtime.discoverStep env skip acc entry).1.groups =
          (groupsOf env skip entry).foldl (fun m g => m.insert g.config.name g) acc.1.groups ∧
        (Runtime.discoverStep env skip acc entry).1.intermediates =
          (intermediatesOf env skip entry).foldl (fun m e => m.insert e.1 e.2)
            acc.1.intermediates := by
      by_cases hskip : entry.1 ∈ skip
      · simp [discoverStep_skip hskip,groupsOf,intermediatesOf,hskip]
      · cases hd : discoverSet env entry.2 with
        | ok scan =>
          have hg : groupsOf env skip entry = scan.groups := by simp [groupsOf,hskip,hd]
          have hi : intermediatesOf env skip entry = scan.intermediates := by
            simp [intermediatesOf,hskip,hd]
          rw [discoverStep_ok hskip hd,hg,hi]
          obtain ⟨h₁,h₂,h₃⟩ := foldl_insertGroup scan.groups acc.1
          refine ⟨h₁,h₂,?_⟩
          simp only [Runtime.extendIntermediates,h₃]
        | error note =>
          have hg : groupsOf env skip entry = [] := by simp [groupsOf,hskip,hd]
          have hi : intermediatesOf env skip entry = [] := by simp [intermediatesOf,hskip,hd]
          rw [discoverStep_error hskip hd,hg,hi]
          exact ⟨rfl,rfl,rfl⟩
    obtain ⟨hsets,hgroups,hinter⟩ := ih (Runtime.discoverStep env skip acc entry)
    rw [List.foldl_cons,List.flatMap_cons,List.flatMap_cons,List.foldl_append,List.foldl_append,
      ← hstep.2.1,← hstep.2.2,← hstep.1]
    exact ⟨hsets,hgroups,hinter⟩

theorem mem_allGroups {g : GroupRuntime H} :
    g ∈ runtime.sets.toList.flatMap (groupsOf env skip) ↔ env.Discovered runtime skip g := by
  simp only [List.mem_flatMap,Prod.exists,Std.ExtTreeMap.mem_toList_iff_getElem?_eq_some,
    mem_groupsOf,ScanEnv.Discovered]

theorem ScanEnv.Discovered.set_isSome {g : GroupRuntime H}
    (h : env.Discovered runtime skip g) : g.config.name.set.isSome := by
  obtain ⟨s,set,-,-,-,hf⟩ := h
  obtain ⟨path,-,-,hn⟩ := hf.name
  simp [hn]

theorem ScanEnv.Discovered.unique {g g' : GroupRuntime H} (h : env.Discovered runtime skip g)
    (h' : env.Discovered runtime skip g') (hname : g.config.name = g'.config.name) : g = g' := by
  obtain ⟨s,set,hset,-,-,hf⟩ := h
  obtain ⟨s',set',hset',-,-,hf'⟩ := h'
  have hs : s = s' := by
    obtain ⟨path,-,-,hn⟩ := hf.name
    obtain ⟨path',-,-,hn'⟩ := hf'.name
    rw [hn,hn',runtime.sets_keyed s set hset,runtime.sets_keyed s' set' hset'] at hname
    exact (GroupId.inSet_inj.mp hname).1
  subst hs
  rw [hset] at hset'
  cases hset'
  exact hf.unique hf' hname

/-- After discovery the groups are the static ones and the discovered ones. -/
theorem discover_groups {id : GroupId} {g : GroupRuntime H} :
    (runtime.discover env skip).1.groups[id]? = some g ↔
      (id.set = none ∧ runtime.groups[id]? = some g) ∨
        (env.Discovered runtime skip g ∧ g.config.name = id) := by
  have hstatic : runtime.staticOnly.groups[id]? = some g ↔
      id.set = none ∧ runtime.groups[id]? = some g := by
    unfold Runtime.staticOnly
    rw [Std.ExtTreeMap.getElem?_filter',Option.filter_eq_some_iff]
    simp [and_comm]
  unfold Runtime.discover
  rw [(foldl_discoverStep _ _).2.1,Maps.getElem?_foldl_insert_of_unique (by
    intro a ha b hb hab
    exact (mem_allGroups.mp ha).unique (mem_allGroups.mp hb) hab)]
  simp only [mem_allGroups,hstatic]
  rw [or_comm]
  apply or_congr
  · constructor
    · exact fun h => h.2
    · rintro ⟨hid,hg⟩
      refine ⟨fun b hb hname => ?_,hid,hg⟩
      have hs := hb.set_isSome
      rw [hname,hid] at hs
      cases hs
  · constructor
    · rintro ⟨a,ha,hname,rfl⟩
      exact ⟨ha,hname⟩
    · rintro ⟨ha,hname⟩
      exact ⟨g,ha,hname,rfl⟩

theorem discover_sets : (runtime.discover env skip).1.sets = runtime.sets :=
  (foldl_discoverStep _ _).1

/-- The intermediate directories after discovery, with their paths. -/
theorem discover_intermediates {id : GroupId} {path : AbsPath} :
    (runtime.discover env skip).1.intermediates[id]? = some path ↔
      ∃ s set names, runtime.sets[s]? = some set ∧ s ∉ skip ∧ env.Scannable set ∧ names ≠ [] ∧
        env.Listed set.config.depth set.rootDir names ∧ id = .inSet s names ∧
        path = names.foldl AbsPath.joinName set.config.membershipRoot := by
  have hmem : ∀ dir : GroupId × AbsPath,
      dir ∈ runtime.sets.toList.flatMap (intermediatesOf env skip) ↔
        ∃ s set names, runtime.sets[s]? = some set ∧ s ∉ skip ∧ env.Scannable set ∧ names ≠ [] ∧
          env.Listed set.config.depth set.rootDir names ∧ dir = (.inSet s names,
            names.foldl AbsPath.joinName set.config.membershipRoot) := by
    intro dir
    simp only [List.mem_flatMap,Prod.exists,Std.ExtTreeMap.mem_toList_iff_getElem?_eq_some,
      mem_intermediatesOf]
    constructor
    · rintro ⟨s,set,hset,hskip,hs,names,hne,hl,rfl⟩
      exact ⟨s,set,names,hset,hskip,hs,hne,hl,by rw [runtime.sets_keyed s set hset]⟩
    · rintro ⟨s,set,names,hset,hskip,hs,hne,hl,rfl⟩
      exact ⟨s,set,hset,hskip,hs,names,hne,hl,by rw [runtime.sets_keyed s set hset]⟩
  unfold Runtime.discover
  rw [(foldl_discoverStep _ _).2.2,Maps.getElem?_foldl_insert_of_unique (by
    intro a ha b hb hab
    obtain ⟨s,set,names,hset,-,-,-,-,rfl⟩ := (hmem a).mp ha
    obtain ⟨s',set',names',hset',-,-,-,-,rfl⟩ := (hmem b).mp hb
    obtain ⟨rfl,rfl⟩ := GroupId.inSet_inj.mp hab
    rw [hset] at hset'
    cases hset'
    rfl)]
  have hempty : runtime.staticOnly.intermediates[id]? = none := by simp [Runtime.staticOnly]
  simp only [hempty,reduceCtorEq,and_false,or_false]
  constructor
  · rintro ⟨dir,hdir,rfl,rfl⟩
    obtain ⟨s,set,names,hset,hskip,hs,hne,hl,rfl⟩ := (hmem dir).mp hdir
    exact ⟨s,set,names,hset,hskip,hs,hne,hl,rfl,rfl⟩
  · rintro ⟨s,set,names,hset,hskip,hs,hne,hl,rfl,rfl⟩
    exact ⟨_,(hmem _).mpr ⟨s,set,names,hset,hskip,hs,hne,hl,rfl⟩,rfl,rfl⟩

theorem discover_unavailable {id : GroupId} :
    id ∈ (runtime.discover env skip).2.unavailable ↔ env.Unavailable runtime skip id := by
  have hstep : ∀ (acc : Runtime H × Discovery) (entry : Name × SetRuntime H),
      id ∈ (Runtime.discoverStep env skip acc entry).2.unavailable ↔ id ∈ acc.2.unavailable ∨
        (entry.1 ∉ skip ∧ env.Scannable entry.2 ∧ ∃ path, path ≠ [] ∧
          env.Unread entry.2.config.depth entry.2.rootDir path ∧
          id = .inSet entry.2.config.name path) := by
    intro acc entry
    by_cases hskip : entry.1 ∈ skip
    · simp [discoverStep_skip hskip,hskip]
    · cases hd : discoverSet env entry.2 with
      | ok scan =>
        obtain ⟨hs,-,hu,-⟩ := discoverSet_ok hd
        simp [discoverStep_ok hskip hd,hskip,hs,hu]
      | error note => simp [discoverStep_error hskip hd,discoverSet_error hd]
  refine (Lists.foldl_or_iff (Q := fun acc : Runtime H × Discovery => id ∈ acc.2.unavailable)
    hstep _ _).trans ?_
  simp only [Finset.notMem_empty,false_or,Prod.exists,
    Std.ExtTreeMap.mem_toList_iff_getElem?_eq_some,ScanEnv.Unavailable]
  constructor
  · rintro ⟨s,set,hset,hskip,hs,path,hp,hu,rfl⟩
    exact ⟨s,set,path,hset,hskip,hs,hp,hu,by rw [runtime.sets_keyed s set hset]⟩
  · rintro ⟨s,set,path,hset,hskip,hs,hp,hu,rfl⟩
    exact ⟨s,set,hset,hskip,hs,path,hp,hu,by rw [runtime.sets_keyed s set hset]⟩

/-- Every set that is not skipped is either scanned or unavailable. -/
theorem discover_setNames (s : Name) :
    (s ∈ (runtime.discover env skip).2.scannedSets ↔
        ∃ set, runtime.sets[s]? = some set ∧ s ∉ skip ∧ env.Scannable set) ∧
      (s ∈ (runtime.discover env skip).2.unavailableSets ↔
        ∃ set, runtime.sets[s]? = some set ∧ s ∉ skip ∧ ¬env.Scannable set) := by
  have hstep : ∀ (acc : Runtime H × Discovery) (entry : Name × SetRuntime H),
      (s ∈ (Runtime.discoverStep env skip acc entry).2.scannedSets ↔ s ∈ acc.2.scannedSets ∨
          (s = entry.1 ∧ s ∉ skip ∧ env.Scannable entry.2)) ∧
        (s ∈ (Runtime.discoverStep env skip acc entry).2.unavailableSets ↔
          s ∈ acc.2.unavailableSets ∨ (s = entry.1 ∧ s ∉ skip ∧ ¬env.Scannable entry.2)) := by
    intro acc entry
    by_cases hskip : entry.1 ∈ skip
    · have hs : s = entry.1 → s ∈ skip := fun h => h ▸ hskip
      rw [discoverStep_skip hskip]
      tauto
    · have hs : s = entry.1 → s ∉ skip := fun h => h ▸ hskip
      cases hd : discoverSet env entry.2 with
      | ok scan =>
        have hsc := (discoverSet_ok hd).1
        rw [discoverStep_ok hskip hd]
        simp only [Finset.mem_insert]
        tauto
      | error note =>
        have hsc := discoverSet_error hd
        rw [discoverStep_error hskip hd]
        simp only [Finset.mem_insert]
        tauto
  have hmem : ∀ P : SetRuntime H → Prop, (∃ entry ∈ runtime.sets.toList, s = entry.1 ∧ s ∉ skip ∧
      P entry.2) ↔ ∃ set, runtime.sets[s]? = some set ∧ s ∉ skip ∧ P set := by
    intro P
    simp only [Prod.exists,Std.ExtTreeMap.mem_toList_iff_getElem?_eq_some]
    constructor
    · rintro ⟨_,set,hset,rfl,hskip,hP⟩
      exact ⟨set,hset,hskip,hP⟩
    · rintro ⟨set,hset,hskip,hP⟩
      exact ⟨s,set,hset,rfl,hskip,hP⟩
  rw [← hmem,← hmem fun set => ¬env.Scannable set]
  have hsc := Lists.foldl_or_iff
    (Q := fun acc : Runtime H × Discovery => s ∈ acc.2.scannedSets) (fun b a => (hstep b a).1)
    runtime.sets.toList (runtime.staticOnly,⟨[],∅,∅,∅⟩)
  have hun := Lists.foldl_or_iff
    (Q := fun acc : Runtime H × Discovery => s ∈ acc.2.unavailableSets) (fun b a => (hstep b a).2)
    runtime.sets.toList (runtime.staticOnly,⟨[],∅,∅,∅⟩)
  simp only [Finset.notMem_empty,false_or] at hsc hun
  exact ⟨hsc,hun⟩

end Byssus
