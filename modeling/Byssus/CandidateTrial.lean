import Mathlib.Algebra.Order.BigOperators.Group.List
import Mathlib.Algebra.Order.Group.Nat
import Byssus.CandidateCheck

/-! When checking candidates predicts the reload.
Changes that can be installed at all are installed in a directory that holds nothing else, or a
symlink to one of the fragments that are changed. -/
namespace Byssus

/-- The changes are to fragments that a directory can hold. -/
structure FragmentChanges.Installable (changes : FragmentChanges) : Prop where
  added : ∀ p ∈ changes.add, ∃ n, p.fileName = some n ∧ isFragment n = true ∧ PathBuf.slash ∉ n
  distinct : (changes.add.map PathBuf.fileName).Nodup
  removed : ∀ name ∈ changes.remove,
    isFragment (pathOf name) = true ∧ PathBuf.slash ∉ pathOf name

namespace Trial

variable (changes : FragmentChanges) (link : Option PathBuf)

/-- A directory with a longer path than any candidate. -/
def dir : PathBuf := PathBuf.slash::List.replicate ((changes.add.map List.length).sum+2) 100

/-- A file of root. -/
def file (content : Text) : OpenFile := ⟨.ok ⟨0,0o644,true,false⟩,.ok content⟩

/-- What is no TOML. -/
def broken : Text := ['=']

/-- A directory of root. -/
def rootDir : FileMeta := ⟨0,0o755,false,true⟩

/-- Configuration is read from the directory; the main file is `/m`. -/
def options : LoadOptions where
  mainFile := [PathBuf.slash,109]
  mainFileRequired := true
  configDir := dir changes
  configDirRequired := true
  ownership := .enforce
  trustedUid := 0
  checkPaths := false
  fragmentChanges := changes

/-- The names that the changes are about. -/
def touched : List PathBuf :=
  (changes.remove.map pathOf++changes.add.filterMap PathBuf.fileName).dedup

/-- A name that is longer than these. -/
def linkText : Text :=
  List.replicate (((touched changes).map List.length).sum+1) 'd'++".toml".toList

/-- The path of the symlink. -/
def linkPath : PathBuf := (dir changes).join (pathOf (linkText changes))

/-- The directory holds the files and, if `link` is one of their names, a symlink to that file.
Every shorter path is a link to the main file, and whatever is not broken is empty. -/
def env (files : PathBuf → Option OpenFile) : LoadEnv where
  canonicalize p :=
    if p.length < (dir changes).length then .ok [PathBuf.slash,109]
    else match link with
      | none => .ok p
      | some n =>
        if p = linkPath changes then
          if (files n).isSome then .ok ((dir changes).join n) else .error ⟨.notFound,"not found"⟩
        else .ok p
  openDir _ := .ok (.ok rootDir)
  openFile parent n :=
    if parent = dir changes then
      match files n with
      | some f => .ok f
      | none => .error ⟨.notFound,"not found"⟩
    else .ok (file [])
  readDir _ := .ok ((((touched changes).filter fun n => (files n).isSome)++
    link.toList.map fun _ => pathOf (linkText changes)).map .ok)
  metadata _ := .ok rootDir
  parse content := if content = broken then .error "no key" else .ok ⟨none,∅,∅⟩
  escapeDebug := String.ofList

/-- What is installed before the changes. -/
def before : PathBuf → Option OpenFile := fun n =>
  if n ∈ touched changes then some (file broken) else none

/-- What is installed after them: the candidates. -/
def after : PathBuf → Option OpenFile := fun n =>
  if n ∈ changes.add.filterMap PathBuf.fileName then some (file []) else none

/-- The entries of the directory. -/
def entries (files : PathBuf → Option OpenFile) : Set PathBuf :=
  {n | (files n).isSome = true ∨ link.isSome = true ∧ n = pathOf (linkText changes)}

theorem length_lt {p : PathBuf} (hp : p ∈ changes.add) : p.length < (dir changes).length := by
  have hle := List.le_sum_of_mem (List.mem_map_of_mem (f := List.length) hp)
  simp only [dir,List.length_cons,List.length_replicate]
  omega

theorem length_join (n : PathBuf) : ¬((dir changes).join n).length < (dir changes).length := by
  unfold PathBuf.join
  split <;> simp

theorem absolute_dir :
    dir changes = PathBuf.slash::List.intercalate [PathBuf.slash] (dir changes).parts := by
  have hlen : ∀ n : ℕ, (List.replicate (n+2) (100 : UInt8)).length = n+2 := fun _ =>
    List.length_replicate
  set name := List.replicate ((changes.add.map List.length).sum+2) (100 : UInt8) with hname
  have hslash : PathBuf.slash ∉ name := fun h => absurd (List.eq_of_mem_replicate h) (by decide)
  have hne : name ≠ [] := by
    rw [← List.length_pos_iff,hname,hlen]
    omega
  have hdot : name ≠ [PathBuf.dot] := by
    intro h
    have := congrArg List.length h
    rw [hname,hlen] at this
    simp at this
  have hjoin : PathBuf.join [PathBuf.slash] name = dir changes := rfl
  have hroot : PathBuf.parts [PathBuf.slash] = [] := by decide
  rw [← hjoin,PathBuf.parts_join hslash hne hdot,hroot,List.nil_append,List.intercalate_singleton]
  rfl

/-! ### Names -/

theorem mem_touched {n : PathBuf} : n ∈ touched changes ↔ changes.Adds n ∨ changes.Removes n := by
  have hremoved : n ∈ changes.remove.map pathOf ↔ changes.Removes n := by
    rw [List.mem_map]
    refine exists_congr fun name => and_congr_right fun _ => ?_
    constructor
    · rintro rfl
      exact toStr_pathOf name
    · exact pathOf_of_toStr
  rw [touched,List.mem_dedup,List.mem_append,hremoved,List.mem_filterMap,or_comm]
  rfl

theorem linkText_bytes : pathOf (linkText changes) =
    List.replicate (((touched changes).map List.length).sum+1) 100++dotToml := by
  have hd : String.utf8EncodeChar 'd' = [100] := by decide
  have htoml : pathOf ".toml".toList = dotToml := by decide
  have hds : ∀ k, pathOf (List.replicate k 'd') = List.replicate k 100 := by
    intro k
    induction k with
    | zero => rfl
    | succ k ih => rw [List.replicate_succ,pathOf,List.flatMap_cons,hd,← pathOf,ih]; rfl
  rw [← hds,← htoml,linkText,pathOf,pathOf,pathOf,List.flatMap_append]

theorem link_untouched : pathOf (linkText changes) ∉ touched changes := by
  intro h
  have hle := List.le_sum_of_mem (List.mem_map_of_mem (f := List.length) h)
  rw [linkText_bytes,List.length_append,List.length_replicate] at hle
  have hfive : dotToml.length = 5 := rfl
  omega

theorem link_slash : PathBuf.slash ∉ pathOf (linkText changes) := by
  rw [linkText_bytes,List.mem_append]
  rintro (h | h)
  · exact absurd (List.eq_of_mem_replicate h) (by decide)
  · exact absurd h (by decide)

theorem link_fragment : isFragment (pathOf (linkText changes)) = true := by
  rw [isFragment_iff,linkText_bytes]
  refine ⟨?_,List.suffix_append _ _⟩
  rw [List.replicate_succ,List.cons_append,List.head?_cons]
  decide

/-- The path of another fragment is not that of the symlink. -/
theorem join_ne_link {n : PathBuf} (hn : n ∈ touched changes) (hfrag : isFragment n = true)
    (hslash : PathBuf.slash ∉ n) : (dir changes).join n ≠ linkPath changes := by
  intro h
  obtain ⟨hne,hd,hdd⟩ := isFragment_proper hfrag
  obtain ⟨hne',hd',hdd'⟩ := isFragment_proper (link_fragment changes)
  have hname := congrArg PathBuf.fileName h
  rw [PathBuf.fileName_join hslash hne hd hdd,linkPath,
    PathBuf.fileName_join (link_slash changes) hne' hd' hdd',Option.some.injEq] at hname
  exact link_untouched changes (hname ▸ hn)

variable {changes} {link} in
/-- The changes are about fragments. -/
theorem touched_fragment (h : changes.Installable) {n : PathBuf} (hn : n ∈ touched changes) :
    isFragment n = true ∧ PathBuf.slash ∉ n := by
  rcases (mem_touched changes).mp hn with ⟨p,hp,hname⟩ | ⟨name,hname,hn⟩
  · obtain ⟨m,hm,hfrag,hslash⟩ := h.added p hp
    cases hm.symm.trans hname
    exact ⟨hfrag,hslash⟩
  · rw [← pathOf_of_toStr hn]
    exact h.removed name hname

/-! ### The directory -/

theorem after_eq_none {n : PathBuf} (hn : n ∉ touched changes) : after changes n = none := by
  rw [after,if_neg]
  exact fun h => hn (List.mem_dedup.mpr (List.mem_append_right _ h))

theorem before_eq_none {n : PathBuf} (hn : n ∉ touched changes) : before changes n = none :=
  if_neg hn

variable {changes} {link} in
theorem dropIn (h : changes.Installable) {files : PathBuf → Option OpenFile}
    (hfiles : ∀ n, n ∉ touched changes → files n = none) :
    DropIn (env changes link files) (dir changes) (dir changes) rootDir
      (entries changes link files) where
  resolved := by
    have hne : dir changes ≠ linkPath changes := by
      intro h
      have := congrArg List.length h
      unfold linkPath PathBuf.join at this
      split at this <;> simp [linkText_bytes] at this
    cases link <;> simp [env,hne]
  absolute := absolute_dir changes
  opened := rfl
  stated := rfl
  listed := by
    refine ⟨((touched changes).filter fun n => (files n).isSome)++
      link.toList.map fun _ => pathOf (linkText changes),rfl,?_,?_⟩
    · refine List.nodup_append.mpr ⟨(List.nodup_dedup _).filter _,?_,?_⟩
      · cases link <;> simp
      · rintro n hn m hm rfl
        obtain ⟨_,-,rfl⟩ := List.mem_map.mp hm
        exact link_untouched changes (List.mem_of_mem_filter hn)
    · intro n
      have hsome : (files n).isSome = true → n ∈ touched changes := by
        intro hn
        by_contra hno
        rw [hfiles n hno] at hn
        cases hn
      simp only [List.mem_append,List.mem_filter,List.mem_map,entries,Set.mem_ofPred_eq]
      refine or_congr (and_iff_right_of_imp hsome) ?_
      cases link <;> simp [eq_comm]
  named := by
    rintro n (hn | ⟨-,rfl⟩)
    · refine (touched_fragment h ?_).2
      by_contra hno
      rw [hfiles n hno] at hn
      cases hn
    · exact link_slash changes

/-- A short path is read as an empty file of root. -/
theorem readChecked_short (files : PathBuf → Option OpenFile) {p : PathBuf}
    (hp : p.length < (dir changes).length) (options : LoadOptions) (huid : options.trustedUid = 0)
    (includeParent : Bool) :
    readChecked (env changes link files) p options includeParent = (.ok (some []),[]) := by
  have hparent : PathBuf.parent [PathBuf.slash,109] = some [PathBuf.slash] := by decide
  have hname : PathBuf.fileName [PathBuf.slash,109] = some [109] := by decide
  have hdir : [PathBuf.slash] ≠ dir changes := by
    intro h
    have := congrArg List.length h
    simp [dir] at this
  have hcheck : ∀ (path : PathBuf) (what : String) (info : FileMeta), info.uid = 0 →
      info.mode &&& 0o022 = 0 → checkOwnerAndMode path options what info = [] :=
    fun path what info hu hm => checkOwnerAndMode_trusted ⟨hu.trans huid.symm,hm⟩ _ _
  have hcanon : (env changes link files).canonicalize p = .ok [PathBuf.slash,109] := by
    simp only [env,if_pos hp]
  rw [readChecked,hcanon]
  simp only [hparent,hname,env,if_neg hdir,readOpened,file]
  rw [hcheck _ _ _ rfl (by decide),hcheck _ _ rootDir rfl (by decide)]
  cases includeParent <;> rfl

/-- A long path leads to itself, unless it is that of the symlink. -/
theorem canonicalize_long (files : PathBuf → Option OpenFile) {p : PathBuf}
    (hlong : ¬p.length < (dir changes).length) (hp : link = none ∨ p ≠ linkPath changes) :
    (env changes link files).canonicalize p = .ok p := by
  cases link with
  | none => simp only [env,if_neg hlong]
  | some n => simp only [env,if_neg hlong,if_neg (hp.resolve_left nofun)]

/-- The names of entries that are looked up along a path. -/
def passes : PathBuf → Set PathBuf := fun p =>
  {n | p.fileName = some n ∨ link = some n ∧ p = linkPath changes}

variable {changes link} in
/-- A path on which none of the names is leads to the same before and after. -/
theorem readChecked_unmoved (hlink : ∀ n, link = some n → n ∈ touched changes) {p : PathBuf}
    (hp : ∀ n ∈ passes changes link p, n ∉ touched changes) (options : LoadOptions) :
    readChecked (env changes link (after changes)) p options true =
      readChecked (env changes link (before changes)) p options true := by
  by_cases hlong : p.length < (dir changes).length
  · have hcanon : ∀ files, (env changes link files).canonicalize p = .ok [PathBuf.slash,109] := by
      intro files
      simp only [env,if_pos hlong]
    have hdir : [PathBuf.slash] ≠ dir changes := by
      intro h
      have := congrArg List.length h
      simp [dir] at this
    have hparent : PathBuf.parent [PathBuf.slash,109] = some [PathBuf.slash] := by decide
    have hname : PathBuf.fileName [PathBuf.slash,109] = some [109] := by decide
    rw [readChecked,readChecked,hcanon,hcanon]
    simp only [hparent,hname,env,if_neg hdir]
  · have hother : link = none ∨ p ≠ linkPath changes := by
      cases hl : link with
      | none => exact .inl rfl
      | some n => exact .inr fun h => hp n (.inr ⟨hl,h⟩) (hlink n hl)
    rw [readChecked,readChecked,canonicalize_long changes link _ hlong hother,
      canonicalize_long changes link _ hlong hother]
    simp only
    cases hparent : p.parent with
    | none => rfl
    | some parent =>
      cases hname : p.fileName with
      | none => rfl
      | some n =>
        have hn : n ∉ touched changes := hp n (.inl hname)
        simp only [env,after_eq_none changes hn,before_eq_none changes hn]

variable {changes link} (h : changes.Installable)
  (hlink : ∀ n, link = some n → n ∈ touched changes)

/-- The changes are installed in the directory. -/
def installation : Installation (env changes link (before changes))
    (env changes link (after changes)) (options changes) where
  canon := dir changes
  info := rootDir
  entries := entries changes link (before changes)
  before := dropIn h fun _ => before_eq_none changes
  after := by
    have hentries : changes.install (entries changes link (before changes)) =
        entries changes link (after changes) := by
      ext n
      have hadds : (after changes n).isSome = true ↔ changes.Adds n := by
        unfold after
        split_ifs with hn
        · exact iff_of_true rfl (List.mem_filterMap.mp hn)
        · exact iff_of_false (by simp) fun hadds => hn (List.mem_filterMap.mpr hadds)
      have hbefore : (before changes n).isSome = true ↔ n ∈ touched changes := by
        unfold before
        split_ifs with hn <;> simp [hn]
      have hkept : n = pathOf (linkText changes) → ¬changes.Removes n := by
        rintro rfl hremoved
        exact link_untouched changes ((mem_touched changes).mpr (.inr hremoved))
      simp only [FragmentChanges.install,entries,Set.mem_ofPred_eq,hadds,hbefore,mem_touched]
      tauto
    have hoptions : (options changes).fragmentChanges = changes := rfl
    rw [hoptions,hentries]
    exact dropIn h fun _ => after_eq_none changes
  removed := by
    intro name hname
    refine ⟨pathOf name,.inl ?_,toStr_pathOf name,(h.removed name hname).1⟩
    have hmem : pathOf name ∈ touched changes :=
      (mem_touched changes).mpr (.inr ⟨name,hname,toStr_pathOf name⟩)
    rw [before,if_pos hmem]
    rfl
  named := by
    intro p hp
    obtain ⟨n,hn,hfrag,-⟩ := h.added p hp
    exact ⟨n,hn,hfrag⟩
  distinct := h.distinct
  readable := by
    intro p hp
    refine ⟨[],⟨0,0o644,true,false⟩,readChecked_short changes link _ (length_lt changes hp) _ rfl _,
      rfl,⟨rfl,by decide⟩,?_,?_⟩
    · intro n hn
      have htouched : n ∈ touched changes := (mem_touched changes).mpr (.inl ⟨p,hp,hn⟩)
      obtain ⟨hfrag,hslash⟩ := touched_fragment h htouched
      exact canonicalize_long changes link _ (length_join changes n)
        (.inr (join_ne_link changes htouched hfrag hslash))
    · intro n hn
      have hadded : n ∈ changes.add.filterMap PathBuf.fileName := List.mem_filterMap.mpr ⟨p,hp,hn⟩
      simp only [env,after,if_pos hadded]
      rfl
  passes := passes changes link
  unmoved := by
    intro p hp
    refine ⟨readChecked_unmoved hlink (fun n hn => ?_) _,rfl⟩
    rw [mem_touched,not_or]
    exact hp n hn
  above := fun _ _ => rfl
  parse := rfl
  escapeDebug := rfl

variable {h hlink} in
/-- The only entry that is not changed is the symlink. -/
theorem kept_link {n : PathBuf} (hkept : (installation h hlink).Kept n) :
    link.isSome = true ∧ n = pathOf (linkText changes) := by
  refine hkept.fragment.2.resolve_left fun hbefore => ?_
  have htouched : n ∈ touched changes := by
    by_contra hno
    rw [before_eq_none changes hno] at hbefore
    cases hbefore
  rcases (mem_touched changes).mp htouched with hadds | hremoved
  · exact hkept.added hadds
  · exact hkept.removed hremoved

/-! ### Reading -/

include h hlink in
/-- The directory passes its checks. -/
theorem checkOwnership_reload : checkOwnership (env changes link (after changes))
    (options changes).configDir (options changes).reload true = [] := by
  have hcheck : ∀ path what, checkOwnerAndMode path (options changes).reload what rootDir = [] :=
    fun _ _ => checkOwnerAndMode_trusted ⟨rfl,by decide⟩ _ _
  have hresolved := (installation h hlink).after.resolved
  have hmeta : (env changes link (after changes)).metadata = fun _ => .ok rootDir := rfl
  rw [checkOwnership,hresolved,hmeta]
  simp only [hcheck]
  exact List.flatMap_eq_nil_iff.mpr fun _ _ => rfl

theorem unlinked (n : PathBuf) (h : (none : Option PathBuf) = some n) : n ∈ touched changes := by
  cases h

/-- Without the symlink, all that is not changed stays as it is. -/
theorem steady : (installation h unlinked).Steady where
  main := by
    have hshort : (options changes).mainFile.length < (dir changes).length := by
      simp [options,dir]
    rw [readChecked_short changes none _ hshort _ rfl,readChecked_short changes none _ hshort _ rfl]
  kept := by
    intro n hkept
    cases (kept_link hkept).1
  directories := fun _ _ => rfl

end Trial

namespace SampleCandidate

open Trial (file rootDir)

/-- One candidate, `/tmp/x.toml` but with the byte 255 for the letter. -/
def unreadable : FragmentChanges := ⟨[[47,116,109,112,47,255,46,116,111,109,108]],[]⟩

/-- The fragment that declares the group. -/
def text (name : Char) : Text :=
  "[groups.".toList++name::"]\nmembership = \"/members/".toList++name::"\"
source_root = \"/data\"
source = \"\x7bname\x7d\"
target_root = \"/view/".toList++name::"\"
target = \"\x7bname\x7d\"
".toList

def rawGroup (name : Char) : RawGroup where
  membership := "/members/".toList++[name]
  sourceRoot := "/data".toList
  source := "\x7bname\x7d".toList
  targetRoot := "/view/".toList++[name]
  target := "\x7bname\x7d".toList
  readOnly := none
  noexec := none
  nosymfollow := none

def dir : PathBuf := pathOf "/etc/byssus/conf.d".toList

def fragment (name : Char) : PathBuf := pathOf (name::".toml".toList)

def options : LoadOptions where
  mainFile := pathOf "/etc/byssus/byssus.toml".toList
  mainFileRequired := false
  configDir := dir
  configDirRequired := false
  ownership := .enforce
  trustedUid := 0
  checkPaths := true
  fragmentChanges := ⟨[pathOf "/tmp/c.toml".toList],["b.toml".toList]⟩

/-- The directory holds the fragments with the names; there is no main file. -/
def env (names : List Char) : LoadEnv where
  canonicalize p := .ok (if p = dir.join (fragment 'a') then pathOf "/srv/a.toml".toList else p)
  openDir _ := .ok (.ok rootDir)
  openFile parent n :=
    match ['a','b','c'].find? fun name => n = fragment name with
    | some name =>
      if parent = dir ∧ name ∉ names then .error ⟨.notFound,"not found"⟩
      else .ok (file (text name))
    | none => .error ⟨.notFound,"not found"⟩
  readDir _ := .ok (names.map fun name => .ok (fragment name))
  metadata _ := .ok rootDir
  parse content :=
    match ['a','b','c'].find? fun name => content = text name with
    | some name => .ok ⟨none,(∅ : Std.ExtTreeMap Text RawGroup).insert [name] (rawGroup name),∅⟩
    | none => .error "no such document"
  escapeDebug := String.ofList

theorem candidate_name : (pathOf "/tmp/c.toml".toList).fileName = some (fragment 'c') := by decide

theorem adds_iff {n : PathBuf} : options.fragmentChanges.Adds n ↔ n = fragment 'c' := by
  constructor
  · rintro ⟨p,hp,hn⟩
    rw [List.mem_singleton.mp hp,candidate_name] at hn
    exact (Option.some.inj hn).symm
  · rintro rfl
    exact ⟨_,List.mem_singleton_self _,candidate_name⟩

theorem canonicalize_other {names : List Char} {p : PathBuf} (h : p ≠ dir.join (fragment 'a')) :
    (env names).canonicalize p = .ok p := by
  simp only [env,if_neg h]

theorem removes_iff {n : PathBuf} : options.fragmentChanges.Removes n ↔ n = fragment 'b' := by
  have hb : ∀ n, toStr n = some "b.toml".toList ↔ n = fragment 'b' := by
    intro n
    constructor
    · intro h
      exact (pathOf_of_toStr h).symm
    · rintro rfl
      exact toStr_pathOf _
  simp only [options,FragmentChanges.Removes,List.mem_singleton,exists_eq_left,hb]

theorem dropIn {names : List Char} (hn : (names.map fragment).Nodup)
    (hslash : ∀ n ∈ names.map fragment, PathBuf.slash ∉ n) :
    DropIn (env names) dir dir rootDir {n | n ∈ names.map fragment} where
  resolved := canonicalize_other (by decide)
  absolute := by decide
  opened := rfl
  stated := rfl
  listed := by
    refine ⟨names.map fragment,?_,hn,fun _ => Iff.rfl⟩
    rw [List.map_map]
    rfl
  named := hslash

/-- Of the entries, only the two are looked up under other names before than after. -/
theorem openFile_eq {parent n : PathBuf} (hb : n ≠ fragment 'b') (hc : n ≠ fragment 'c') :
    (env ['a','c']).openFile parent n = (env ['a','b']).openFile parent n := by
  by_cases ha : n = fragment 'a'
  · subst ha
    have hfind : (['a','b','c'].find? fun name => fragment 'a' = fragment name) = some 'a' := by
      decide
    simp only [env,hfind]
    simp
  · have hfind : (['a','b','c'].find? fun name => n = fragment name) = none := by
      simp [ha,hb,hc]
    simp only [env,hfind]

def installation : Installation (env ['a','b']) (env ['a','c']) options where
  canon := dir
  info := rootDir
  entries := {n | n ∈ ['a','b'].map fragment}
  before := dropIn (by decide) (by decide)
  after := by
    have hentries : options.fragmentChanges.install {n | n ∈ ['a','b'].map fragment} =
        {n | n ∈ ['a','c'].map fragment} := by
      ext n
      have hab : fragment 'a' ≠ fragment 'b' := by decide
      simp only [FragmentChanges.install,adds_iff,removes_iff,List.map_cons,List.map_nil,
        List.mem_cons,List.not_mem_nil,or_false,Set.mem_ofPred_eq]
      constructor
      · rintro (h | ⟨h | h,hno⟩)
        · exact .inr h
        · exact .inl h
        · exact absurd h hno
      · rintro (rfl | h)
        · exact .inr ⟨.inl rfl,hab⟩
        · exact .inl h
    rw [hentries]
    exact dropIn (by decide) (by decide)
  removed := by
    intro name hname
    rw [List.mem_singleton.mp hname]
    exact ⟨fragment 'b',by simp,toStr_pathOf _,by decide⟩
  named := by
    intro p hp
    rw [List.mem_singleton.mp hp]
    exact ⟨fragment 'c',by decide,by decide⟩
  distinct := List.nodup_singleton _
  readable := by
    intro p hp
    rw [List.mem_singleton.mp hp]
    refine ⟨text 'c',⟨0,0o644,true,false⟩,rfl,rfl,⟨rfl,by decide⟩,?_,?_⟩
    · intro n hn
      cases candidate_name.symm.trans hn
      exact canonicalize_other (by decide)
    · intro n hn
      cases candidate_name.symm.trans hn
      rfl
  passes := fun p => {n | p.fileName = some n}
  unmoved := by
    intro p hp
    refine ⟨?_,rfl⟩
    simp only [adds_iff,removes_iff] at hp
    have hname : ∀ resolved n, (env ['a','b']).canonicalize p = .ok resolved →
        resolved.fileName = some n → n ≠ fragment 'b' ∧ n ≠ fragment 'c' := by
      intro resolved n hr hn
      by_cases hlink : p = dir.join (fragment 'a')
      · simp only [env,if_pos hlink,Except.ok.injEq] at hr
        have hsource : (pathOf "/srv/a.toml".toList).fileName = some (fragment 'a') := by decide
        rw [← hr,hsource] at hn
        cases hn
        decide
      · rw [canonicalize_other hlink,Except.ok.injEq] at hr
        exact (hp n (hr ▸ hn)).symm
    have hcanon : (env ['a','c']).canonicalize p = (env ['a','b']).canonicalize p := rfl
    have hdir : (env ['a','c']).openDir = (env ['a','b']).openDir := rfl
    rw [readChecked,readChecked,hcanon,hdir]
    cases hr : (env ['a','b']).canonicalize p with
    | error e => rfl
    | ok resolved =>
      cases hparent : resolved.parent with
      | none => simp only [hparent]
      | some parent =>
        cases hfile : resolved.fileName with
        | none => simp only [hparent,hfile]
        | some n =>
          obtain ⟨hb,hc⟩ := hname resolved n hr hfile
          simp only [hparent,hfile,openFile_eq hb hc]
  above := fun _ _ => rfl
  parse := rfl
  escapeDebug := rfl

theorem steady : installation.Steady where
  main := by
    refine (installation.unmoved _ fun n hn => ?_).1
    have hname : options.mainFile.fileName = some (pathOf "byssus.toml".toList) := by decide
    cases hname.symm.trans hn
    rw [adds_iff,removes_iff]
    decide
  kept := by
    intro n hkept
    refine (installation.unmoved _ fun m hm => ?_).1
    cases (installation.before.fileName_entry hkept.fragment).symm.trans hm
    exact ⟨hkept.added,hkept.removed⟩
  directories := fun _ _ => rfl

theorem utf8 : options.fragmentChanges.Utf8 := by
  intro p hp
  rw [List.mem_singleton.mp hp]
  exact ⟨"c.toml".toList,candidate_name⟩

end SampleCandidate
end Byssus
