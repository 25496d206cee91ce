import Byssus.Library.KeyOrder
import Byssus.SameSettings

/-! Checking candidate fragments before they are installed.
Loading with changes is compared with loading the directory in which they were made. -/
namespace Byssus

/-- The file passes the ownership and mode checks. -/
def FileMeta.Trusted (info : FileMeta) (options : LoadOptions) : Prop :=
  info.uid = options.trustedUid ∧ info.mode &&& 0o022 = 0

/-- The drop-in directory at `dir` is the directory `canon`, with these entries: files, symlinks or
anything else. -/
structure DropIn (env : LoadEnv) (dir canon : PathBuf) (info : FileMeta) (entries : Set PathBuf) :
    Prop where
  resolved : env.canonicalize dir = .ok canon
  absolute : canon = PathBuf.slash::List.intercalate [PathBuf.slash] canon.parts
  opened : env.openDir canon = .ok (.ok info)
  stated : env.metadata canon = .ok info
  listed : ∃ names : List PathBuf, env.readDir dir = .ok (names.map .ok) ∧ names.Nodup ∧
    ∀ n, n ∈ names ↔ n ∈ entries
  named : ∀ n ∈ entries, PathBuf.slash ∉ n

namespace FragmentChanges

variable (changes : FragmentChanges)

/-- The name of a candidate. -/
def Adds (n : PathBuf) : Prop := ∃ p ∈ changes.add, p.fileName = some n

/-- A removed name. -/
def Removes (n : PathBuf) : Prop := ∃ name ∈ changes.remove, toStr n = some name

/-- The entries after the removals and then the additions. -/
def install (entries : Set PathBuf) : Set PathBuf :=
  {n | changes.Adds n ∨ n ∈ entries ∧ ¬changes.Removes n}

end FragmentChanges

/-- What a reload loads with. -/
def LoadOptions.reload (options : LoadOptions) : LoadOptions :=
  {options with fragmentChanges := ⟨[],[]⟩}

/-- The candidate is written under its file name, into the directory `canon`. -/
structure LoadEnv.Holds (env : LoadEnv) (dir canon : PathBuf) (p : PathBuf) (f : OpenFile) :
    Prop where
  resolved : ∀ n, p.fileName = some n → env.canonicalize (dir.join n) = .ok (canon.join n)
  opened : ∀ n, p.fileName = some n → env.openFile canon n = .ok f

/-- In `env'` the changes of `options` are made that are checked in `env`.  The removed names are
those of installed fragments.  The candidates can be read and pass the checks, and they have
distinct names that the daemon selects. -/
structure Installation (env env' : LoadEnv) (options : LoadOptions) where
  canon : PathBuf
  info : FileMeta
  entries : Set PathBuf
  before : DropIn env options.configDir canon info entries
  after : DropIn env' options.configDir canon info (options.fragmentChanges.install entries)
  removed : ∀ name ∈ options.fragmentChanges.remove, ∃ n ∈ entries,
    toStr n = some name ∧ isFragment n = true
  named : ∀ p ∈ options.fragmentChanges.add, ∃ n, p.fileName = some n ∧ isFragment n = true
  distinct : (options.fragmentChanges.add.map PathBuf.fileName).Nodup
  readable : ∀ p ∈ options.fragmentChanges.add, ∃ content info,
    readChecked env p options false = (.ok (some content),[]) ∧ info.isFile = true ∧
      info.Trusted options ∧ env'.Holds options.configDir canon p ⟨.ok info,.ok content⟩
  /-- The entries of the directory that are looked up on the way along a path. -/
  passes : PathBuf → Set PathBuf
  /-- A path on which no change was made leads to what it led to. -/
  unmoved : ∀ path,
    (∀ n ∈ passes path, ¬options.fragmentChanges.Adds n ∧ ¬options.fragmentChanges.Removes n) →
    readChecked env' path options true = readChecked env path options true ∧
      env'.metadata path = env.metadata path
  above : ∀ p, canon.parent = some p → env'.metadata p = env.metadata p
  parse : env'.parse = env.parse
  escapeDebug : env'.escapeDebug = env.escapeDebug

/-- The check succeeds iff the reload does, and both give the same settings. -/
def Predicts (check reload : Except Issues Loaded) : Prop :=
  ((∃ loaded, check = .ok loaded) ↔ ∃ loaded, reload = .ok loaded) ∧
    ∀ loaded loaded', check = .ok loaded → reload = .ok loaded' →
      loaded.config.SameSettings loaded'.config

/-! ### Names -/

/-- What the daemon selects by the text of a name. -/
def Selectable (name : Text) : Prop :=
  name ≠ [] ∧ name.head? ≠ some '.' ∧ ".toml".toList.isSuffixOf name = true

theorem fileNameOf_eq {p n : PathBuf} (h : p.fileName = some n) :
    fileNameOf p = (toStr n).getD [] := by
  rw [fileNameOf,h,Option.bind_some]

theorem isFragment_iff {n : List UInt8} :
    isFragment n = true ↔ n.head? ≠ some PathBuf.dot ∧ dotToml <:+ n := by
  simp [isFragment]

/-- The name of a fragment is one of an entry. -/
theorem isFragment_proper {n : List UInt8} (h : isFragment n = true) :
    n ≠ [] ∧ n ≠ [PathBuf.dot] ∧ n ≠ [PathBuf.dot,PathBuf.dot] := by
  have hlen := (isFragment_iff.mp h).2.length_le
  have hfive : dotToml.length = 5 := rfl
  refine ⟨?_,?_,?_⟩ <;> rintro rfl <;> simp [hfive] at hlen

theorem selectable_of_isFragment {s : Text} (h : isFragment (pathOf s) = true) : Selectable s := by
  obtain ⟨hhead,hsuffix⟩ := isFragment_iff.mp h
  refine ⟨?_,?_,?_⟩
  · rintro rfl
    exact (isFragment_proper h).1 rfl
  · intro hdot
    obtain ⟨rest,rfl⟩ : ∃ rest, s = '.'::rest := by
      cases s with
      | nil => simp at hdot
      | cons c rest => exact ⟨rest,by simpa using hdot⟩
    apply hhead
    rw [pathOf,List.flatMap_cons,show String.utf8EncodeChar '.' = [PathBuf.dot] from by decide]
    rfl
  · rw [List.isSuffixOf_iff_suffix]
    apply suffix_of_pathOf (by decide)
    rwa [show pathOf ".toml".toList = dotToml from by decide]

/-! ### Candidates -/

theorem validateCandidates_names (changes : FragmentChanges) :
    (validateCandidates changes).1 = changes.add.map fileNameOf := by
  unfold validateCandidates
  induction changes.add using List.reverseRecOn with
  | nil => rfl
  | append_singleton add p ih =>
    rw [List.foldl_append,List.foldl_cons,List.foldl_nil,List.map_append,← ih]
    rfl

theorem hasErrors_validateCandidates (changes : FragmentChanges) :
    hasErrors (validateCandidates changes).2 = false ↔
      (∀ p ∈ changes.add, Selectable (fileNameOf p)) ∧ (changes.add.map fileNameOf).Nodup := by
  obtain ⟨add,remove⟩ := changes
  induction add using List.reverseRecOn with
  | nil => simp [validateCandidates,hasErrors]
  | append_singleton add p ih =>
    have hstep : validateCandidates ⟨add++[p],remove⟩ =
        validateCandidate (validateCandidates ⟨add,remove⟩) p := by
      simp [validateCandidates]
    have hnames := validateCandidates_names ⟨add,remove⟩
    rw [hstep]
    unfold validateCandidate
    have hone : ∀ (P : Prop) [Decidable P] (message : String),
        hasErrors (if P then [errorIssue (some p) none message] else []) = false ↔ ¬P := by
      intro P _ message
      by_cases hP : P <;> simp [hP,hasErrors,errorIssue]
    have hselect : Selectable (fileNameOf p) ↔ ¬(fileNameOf p = [] ∨
        (fileNameOf p).head? = some '.' ∨ ¬".toml".toList.isSuffixOf (fileNameOf p)) := by
      simp only [Selectable,not_or,not_not,ne_eq]
    have hnodup : ((add++[p]).map fileNameOf).Nodup ↔
        (add.map fileNameOf).Nodup ∧ fileNameOf p ∉ add.map fileNameOf := by
      rw [List.map_append,List.nodup_append_comm]
      simp [and_comm]
    have hall : (∀ q ∈ add++[p], Selectable (fileNameOf q)) ↔
        (∀ q ∈ add, Selectable (fileNameOf q)) ∧ Selectable (fileNameOf p) := by
      rw [List.forall_mem_append,List.forall_mem_singleton]
    simp only [hasErrors_append,Bool.or_eq_false_iff,ih,hone,hnames]
    rw [hnodup,hall,hselect]
    tauto

/-! ### The installed fragments -/

/-- The text of a file name, if it has one. -/
def nameText (n : PathBuf) : Text := (toStr n).getD []

/-- The file name of a path, if it has one. -/
def nameOf (p : PathBuf) : PathBuf := p.fileName.getD []

theorem fileNameOf_eq_nameText (p : PathBuf) : fileNameOf p = nameText (nameOf p) := by
  unfold fileNameOf nameText nameOf
  cases p.fileName with
  | none => simp [toStr,decode]
  | some n => rfl

/-- Names in the order of their texts, and of their bytes where texts are equal. -/
def byName : PathBuf → PathBuf → Ordering := compareLex (compareOn nameText) compare

instance : Std.TransCmp byName := inferInstanceAs (Std.TransCmp (compareLex _ _))

instance : Std.LawfulEqCmp byName :=
  KeyOrder.lawfulEq_compareLex (g := id) fun _ _ _ h => h

namespace DropIn

variable {env : LoadEnv} {dir canon : PathBuf} {info : FileMeta} {entries : Set PathBuf}

/-- The fragments among the entries. -/
def Fragment (entries : Set PathBuf) (n : PathBuf) : Prop := isFragment n = true ∧ n ∈ entries

/-- The fragments are listed by name. -/
theorem listFragments (h : DropIn env dir canon info entries) : ∃ names : List PathBuf,
    Byssus.listFragments env dir = .ok (some (names.map dir.join)) ∧ names.Nodup ∧
      (names.Pairwise fun a b => (compare a b).isLE = true) ∧
      ∀ n, n ∈ names ↔ Fragment entries n := by
  obtain ⟨names,hread,hnodup,hmem⟩ := h.listed
  have hall : ∀ names : List PathBuf,
      (names.map (Except.ok (ε := IoError))).mapM id = .ok names := by
    intro names
    induction names with
    | nil => rfl
    | cons n names ih => rw [List.map_cons,List.mapM_cons,ih]; rfl
  refine ⟨(names.filter isFragment).insertionSort fun a b => (compare a b).isLE = true,?_,?_,?_,?_⟩
  · rw [Byssus.listFragments,hread]
    simp only [hall]
    rfl
  · exact (List.perm_insertionSort _ _).nodup_iff.mpr (hnodup.filter _)
  · exact KeyOrder.pairwise_insertionSort id _
  · intro n
    rw [List.mem_insertionSort,List.mem_filter,hmem,and_comm]
    rfl

/-- They are what a load finds installed. -/
theorem installedFragments (h : DropIn env dir canon info entries) (options : LoadOptions)
    (hdir : options.configDir = dir) : ∃ names : List PathBuf,
    Byssus.installedFragments env options = (names.map dir.join,[]) ∧ names.Nodup ∧
      (names.Pairwise fun a b => (compare a b).isLE = true) ∧
      ∀ n, n ∈ names ↔ Fragment entries n := by
  obtain ⟨names,hlist,hnames⟩ := h.listFragments
  exact ⟨names,by rw [Byssus.installedFragments,hdir,hlist],hnames⟩

/-- Listing the directory gives no issue. -/
theorem installedFragments_issues (h : DropIn env dir canon info entries) (options : LoadOptions)
    (hdir : options.configDir = dir) : (Byssus.installedFragments env options).2 = [] := by
  obtain ⟨names,hlist,-⟩ := h.installedFragments options hdir
  rw [hlist]

theorem fileName_entry (h : DropIn env dir canon info entries) {n : PathBuf}
    (hn : Fragment entries n) : (dir.join n).fileName = some n := by
  obtain ⟨hne,hd,hdd⟩ := isFragment_proper hn.1
  exact PathBuf.fileName_join (h.named n hn.2) hne hd hdd

theorem nameOf_entry (h : DropIn env dir canon info entries) {n : PathBuf}
    (hn : Fragment entries n) : nameOf (dir.join n) = n := by
  rw [nameOf,h.fileName_entry hn,Option.getD_some]

/-- A fragment that is a file of the directory is read together with the check of the directory. -/
theorem readChecked_file (h : DropIn env dir canon info entries) {n : PathBuf} {f : OpenFile}
    (hn : Fragment entries n) (hcanon : env.canonicalize (dir.join n) = .ok (canon.join n))
    (hopen : env.openFile canon n = .ok f) (options : LoadOptions) :
    readChecked env (dir.join n) options true =
      readOpened (dir.join n) canon options true (.ok info) f := by
  obtain ⟨hne,hd,hdd⟩ := isFragment_proper hn.1
  have hslash := h.named n hn.2
  rw [readChecked,hcanon]
  simp only [PathBuf.parent_join hslash hne hd h.absolute,PathBuf.fileName_join hslash hne hd hdd,
    h.opened,hopen]

end DropIn

/-! ### The selected fragments -/

/-- The candidates' names are UTF-8. -/
def FragmentChanges.Utf8 (changes : FragmentChanges) : Prop :=
  ∀ p ∈ changes.add, ∃ s, p.fileName = some (pathOf s)

/-- A candidate whose name is not UTF-8 is rejected. -/
theorem FragmentChanges.rejected {changes : FragmentChanges} (h : ¬changes.Utf8) :
    hasErrors (validateCandidates changes).2 = true := by
  by_contra herr
  obtain ⟨hall,-⟩ := (hasErrors_validateCandidates _).mp (Bool.not_eq_true _ ▸ herr)
  refine h fun p hp => ?_
  obtain ⟨hne,-,-⟩ := hall p hp
  cases hn : p.fileName with
  | none => exact absurd (by rw [fileNameOf,hn]; rfl) hne
  | some n =>
    cases hs : toStr n with
    | none => exact absurd (by rw [fileNameOf_eq hn,hs]; rfl) hne
    | some s => exact ⟨s,by rw [pathOf_of_toStr hs]⟩

/-! ### Checks and loading -/

theorem hasErrors_checkOwnerAndMode (p p' : PathBuf) (options : LoadOptions) (what what' : String)
    (info : FileMeta) : hasErrors (checkOwnerAndMode p options what info) =
      hasErrors (checkOwnerAndMode p' options what' info) := by
  unfold checkOwnerAndMode
  rw [hasErrors_append,hasErrors_append]
  congr 1 <;> split <;> rfl

theorem checkOwnerAndMode_trusted {info : FileMeta} {options : LoadOptions}
    (h : info.Trusted options) (p : PathBuf) (what : String) :
    checkOwnerAndMode p options what info = [] := by
  simp [checkOwnerAndMode,h.1,h.2]

theorem any_fragment {l l' : Sources} (h : List.Forall₂ (fun s s' => s.2 = s'.2) l l') :
    (l.any fun s => !s.2.2) = l'.any fun s => !s.2.2 := by
  induction h with
  | nil => rfl
  | cons hs _ ih => rw [List.any_cons,List.any_cons,hs,ih]

/-- What must hold for a load to succeed. -/
theorem load_ok_iff {env : LoadEnv} {options : LoadOptions} :
    (∃ loaded, load env options = .ok loaded) ↔ hasErrors (loadFiles env options).2 = false ∧
      hasErrors (assemble env.escapeDebug (loadFiles env options).1).2 = false ∧
      (options.checkPaths = true → hasErrors (checkPathsExist env
        (assemble env.escapeDebug (loadFiles env options).1).1) = false) := by
  have hwarning : ∀ b : Bool, hasErrors (if b then
      [⟨.warning,none,none,"no configuration files found; no groups are defined"⟩] else []) =
        false := by
    intro b
    cases b <;> rfl
  have hfinish : ∀ (config : Config) (issues : Issues),
      (∃ loaded, finishLoad config issues = .ok loaded) ↔ hasErrors issues = false := by
    intro config issues
    unfold finishLoad
    cases hasErrors issues <;> simp
  rw [load,hfinish]
  simp only [hasErrors_append,hwarning,Bool.or_false,Bool.or_eq_false_iff,and_assoc]
  refine and_congr_right fun h₁ => and_congr_right fun h₂ => ?_
  rw [h₁,h₂]
  cases options.checkPaths with
  | false => simp [hasErrors]
  | true => simp

/-- A candidate whose name is not UTF-8 fails the check. -/
theorem check_fails (env : LoadEnv) {options : LoadOptions} (h : ¬options.fragmentChanges.Utf8) :
    ¬∃ loaded, load env options = .ok loaded := by
  rw [load_ok_iff,loadFiles]
  simp only [hasErrors_append,FragmentChanges.rejected h]
  simp

namespace Installation

variable {env env' : LoadEnv} {options : LoadOptions} (i : Installation env env' options)

/-- The entries after the changes. -/
def installed : Set PathBuf := options.fragmentChanges.install i.entries

open DropIn (Fragment)

/-- A fragment that the changes leave alone. -/
structure Kept (n : PathBuf) : Prop where
  fragment : Fragment i.entries n
  added : ¬options.fragmentChanges.Adds n
  removed : ¬options.fragmentChanges.Removes n

/-- What is not changed comes to the same before and after: the main file, the fragments that stay,
which may be symlinks to others, and the directories that the checked configuration names. -/
structure Steady : Prop where
  main : readChecked env' options.mainFile options true =
    readChecked env options.mainFile options true
  kept : ∀ n, i.Kept n → readChecked env' (options.configDir.join n) options true =
    readChecked env (options.configDir.join n) options true
  directories : ∀ path ∈ (assemble env.escapeDebug (loadFiles env options).1).1.directories,
    env'.accepts path = env.accepts path

/-- Neither the main file nor a fragment that stays nor a directory that the checked configuration
names is reached through an entry that is changed. -/
structure Apart : Prop where
  main : ∀ m ∈ i.passes options.mainFile,
    ¬options.fragmentChanges.Adds m ∧ ¬options.fragmentChanges.Removes m
  kept : ∀ n, i.Kept n → ∀ m ∈ i.passes (options.configDir.join n),
    ¬options.fragmentChanges.Adds m ∧ ¬options.fragmentChanges.Removes m
  directories : ∀ path ∈ (assemble env.escapeDebug (loadFiles env options).1).1.directories,
    ∀ m ∈ i.passes (pathOf path.display),
      ¬options.fragmentChanges.Adds m ∧ ¬options.fragmentChanges.Removes m

variable {i} in
theorem Apart.steady (h : i.Apart) : i.Steady where
  main := (i.unmoved _ h.main).1
  kept := fun n hn => (i.unmoved _ (h.kept n hn)).1
  directories := by
    intro path hpath
    have hmeta := (i.unmoved _ (h.directories path hpath)).2
    simp only [LoadEnv.accepts,checkPath,hmeta]

include i in
/-- With UTF-8 names, a fragment is kept by the text of its name iff it is kept by its name. -/
theorem kept_iff (hutf : options.fragmentChanges.Utf8) (n : PathBuf) :
    (nameText n ∉ options.fragmentChanges.remove ∧
      nameText n ∉ options.fragmentChanges.add.map fileNameOf) ↔
      ¬options.fragmentChanges.Adds n ∧ ¬options.fragmentChanges.Removes n := by
  have hadded : nameText n ∈ options.fragmentChanges.add.map fileNameOf ↔
      options.fragmentChanges.Adds n := by
    rw [List.mem_map]
    constructor
    · rintro ⟨p,hp,heq⟩
      obtain ⟨m,hm,hfrag⟩ := i.named p hp
      obtain ⟨s,hs⟩ := hutf p hp
      cases hm.symm.trans hs
      have hname : fileNameOf p = s := by rw [fileNameOf_eq hs,toStr_pathOf,Option.getD_some]
      refine ⟨p,hp,?_⟩
      cases hn : toStr n with
      | none =>
        rw [hname,nameText,hn,Option.getD_none] at heq
        rw [heq] at hfrag
        exact absurd rfl (isFragment_proper hfrag).1
      | some t =>
        rw [hname,nameText,hn,Option.getD_some] at heq
        rw [hs,heq,pathOf_of_toStr hn]
    · rintro ⟨p,hp,hn⟩
      exact ⟨p,hp,fileNameOf_eq hn⟩
  have hremoved : nameText n ∈ options.fragmentChanges.remove ↔
      options.fragmentChanges.Removes n := by
    unfold FragmentChanges.Removes
    cases hn : toStr n with
    | none =>
      simp only [nameText,hn,Option.getD_none,reduceCtorEq,and_false,exists_false,iff_false]
      intro hempty
      obtain ⟨m,-,hm,hfrag⟩ := i.removed [] hempty
      rw [← pathOf_of_toStr hm] at hfrag
      exact (isFragment_proper hfrag).1 rfl
    | some t => simp [nameText,hn]
  rw [hadded,hremoved,and_comm]

/-- The fragments after the changes are the candidates and the ones that are kept. -/
theorem fragment_installed_iff {n : PathBuf} : Fragment i.installed n ↔
    options.fragmentChanges.Adds n ∨ i.Kept n := by
  constructor
  · rintro ⟨hfrag,hadd | ⟨hn,hremoved⟩⟩
    · exact .inl hadd
    · by_cases hadd : options.fragmentChanges.Adds n
      · exact .inl hadd
      · exact .inr ⟨⟨hfrag,hn⟩,hadd,hremoved⟩
  · rintro (hadd | hkept)
    · obtain ⟨p,hp,hn⟩ := hadd
      obtain ⟨m,hm,hfrag⟩ := i.named p hp
      cases hm.symm.trans hn
      exact ⟨hfrag,.inl ⟨p,hp,hn⟩⟩
    · exact ⟨hkept.fragment.1,.inr ⟨hkept.fragment.2,hkept.removed⟩⟩

/-- A fragment that is checked, and the one that a reload reads in its place. -/
def Corresponds (a b : PathBuf × Bool) : Prop :=
  ∃ n, b = (options.configDir.join n,false) ∧
    ((a = (options.configDir.join n,false) ∧ i.Kept n) ∨
      ∃ p ∈ options.fragmentChanges.add, a = (p,true) ∧ p.fileName = some n)

/-- The order in which fragments are read is the order of their names. -/
theorem sorted_by_name {l : List (PathBuf × Bool)}
    (h : l.Pairwise fun a b => fileNameOf a.1 = fileNameOf b.1 →
      (compare (nameOf a.1) (nameOf b.1)).isLE = true) :
    (l.insertionSort fun a b => (compare (fileNameOf a.1) (fileNameOf b.1)).isLE = true) =
      l.insertionSort fun a b => (byName (nameOf a.1) (nameOf b.1)).isLE = true :=
  KeyOrder.insertionSort_compareLex (fun a : PathBuf × Bool => nameOf a.1)
    (fun a => fileNameOf_eq_nameText a.1) h

include i in
theorem nameOf_eq_iff {p n : PathBuf} (hp : p ∈ options.fragmentChanges.add) :
    nameOf p = n ↔ p.fileName = some n := by
  obtain ⟨m,hm,-⟩ := i.named p hp
  rw [nameOf,hm,Option.getD_some,Option.some.injEq]

/-- The installed fragments that are kept. -/
def keptNames (options : LoadOptions) (names : List PathBuf) : List PathBuf :=
  names.filter fun n => fileNameOf (options.configDir.join n) ∉ options.fragmentChanges.remove &&
    fileNameOf (options.configDir.join n) ∉ options.fragmentChanges.add.map fileNameOf

theorem mem_keptNames (hutf : options.fragmentChanges.Utf8) {names : List PathBuf}
    (hmem : ∀ n, n ∈ names ↔ Fragment i.entries n) {n : PathBuf} :
    n ∈ keptNames options names ↔ i.Kept n := by
  have hkept : i.Kept n ↔ Fragment i.entries n ∧ ¬options.fragmentChanges.Adds n ∧
      ¬options.fragmentChanges.Removes n :=
    ⟨fun h => ⟨h.fragment,h.added,h.removed⟩,fun h => ⟨h.1,h.2.1,h.2.2⟩⟩
  rw [keptNames,List.mem_filter,hmem,hkept]
  refine and_congr_right fun hn => ?_
  have htext : fileNameOf (options.configDir.join n) = nameText n := by
    rw [fileNameOf_eq_nameText,i.before.nameOf_entry hn]
  rw [htext,← i.kept_iff hutf n]
  simp

theorem selectFragments_eq (names : List PathBuf) :
    selectFragments options.fragmentChanges (options.fragmentChanges.add.map fileNameOf)
      (names.map options.configDir.join) =
        ((keptNames options names).map (fun n => (options.configDir.join n,false))++
          options.fragmentChanges.add.map (·,true)).insertionSort fun a b =>
            (compare (fileNameOf a.1) (fileNameOf b.1)).isLE = true := by
  unfold selectFragments keptNames
  simp only [List.filter_map,List.map_map]
  rfl

/-- What the check keeps, and the candidates, have the names that are installed after the changes. -/
theorem names_perm (hutf : options.fragmentChanges.Utf8) {names names' : List PathBuf}
    (hnodup : names.Nodup) (hmem : ∀ n, n ∈ names ↔ Fragment i.entries n) (hnodup' : names'.Nodup)
    (hmem' : ∀ n, n ∈ names' ↔ Fragment i.installed n) :
    (keptNames options names++options.fragmentChanges.add.map nameOf).Perm names' := by
  refine (List.perm_ext_iff_of_nodup ?_ hnodup').mpr fun n => ?_
  · refine List.nodup_append.mpr ⟨hnodup.filter _,?_,?_⟩
    · refine List.Nodup.map_on (fun p hp q hq heq => ?_) (List.Nodup.of_map _ i.distinct)
      have hp' := (i.nameOf_eq_iff hp).mp rfl
      rw [heq] at hp'
      exact List.inj_on_of_nodup_map i.distinct hp hq
        (hp'.trans ((i.nameOf_eq_iff hq).mp rfl).symm)
    · rintro n hn m hm rfl
      obtain ⟨p,hp,hpn⟩ := List.mem_map.mp hm
      exact ((i.mem_keptNames hutf hmem).mp hn).added ⟨p,hp,(i.nameOf_eq_iff hp).mp hpn⟩
  · rw [List.mem_append,i.mem_keptNames hutf hmem,hmem',i.fragment_installed_iff,List.mem_map,
      or_comm]
    exact or_congr_left (exists_congr fun p => and_congr_right fun hp => i.nameOf_eq_iff hp)

/-- What the check selects with one text for a name is in the order of the names. -/
theorem checked_ordered (hutf : options.fragmentChanges.Utf8) {names : List PathBuf}
    (hsorted : names.Pairwise fun a b => (compare a b).isLE = true)
    (hname : ∀ n, n ∈ names → nameOf (options.configDir.join n) = n) :
    ((keptNames options names).map (fun n => (options.configDir.join n,false))++
      options.fragmentChanges.add.map (·,true)).Pairwise fun a b =>
        fileNameOf a.1 = fileNameOf b.1 → (compare (nameOf a.1) (nameOf b.1)).isLE = true := by
  refine List.pairwise_append.mpr ⟨?_,?_,?_⟩
  · rw [List.pairwise_map]
    refine (hsorted.filter _).imp_of_mem fun {a b} ha hb hab _ => ?_
    rwa [hname a (List.mem_of_mem_filter ha),hname b (List.mem_of_mem_filter hb)]
  · rw [List.pairwise_map]
    refine List.pairwise_of_forall_mem_list fun p hp q hq heq => ?_
    obtain ⟨s,hs⟩ := hutf p hp
    obtain ⟨t,ht⟩ := hutf q hq
    rw [fileNameOf_eq hs,fileNameOf_eq ht,toStr_pathOf,toStr_pathOf] at heq
    have hnames : nameOf p = nameOf q := by
      rw [nameOf,nameOf,hs,ht]
      exact congrArg pathOf heq
    simp [hnames]
  · intro a ha b hb heq
    obtain ⟨n,hn,rfl⟩ := List.mem_map.mp ha
    obtain ⟨p,hp,rfl⟩ := List.mem_map.mp hb
    have hnot := List.of_mem_filter hn
    simp only [Bool.and_eq_true,decide_eq_true_eq] at hnot
    exact absurd (List.mem_map.mpr ⟨p,hp,heq.symm⟩) hnot.2

/-- The same names are selected in the same order. -/
theorem selected (hutf : options.fragmentChanges.Utf8) : List.Forall₂ i.Corresponds
    (selectFragments options.fragmentChanges (validateCandidates options.fragmentChanges).1
      (installedFragments env options).1)
    (selectFragments ⟨[],[]⟩ [] (installedFragments env' options.reload).1) := by
  obtain ⟨names,hinst,hnodup,hsorted,hmem⟩ := i.before.installedFragments options rfl
  obtain ⟨names',hinst',hnodup',hsorted',hmem'⟩ := i.after.installedFragments options.reload rfl
  have hmem' : ∀ n, n ∈ names' ↔ Fragment i.installed n := hmem'
  have hreload : selectFragments ⟨[],[]⟩ [] (names'.map options.configDir.join) =
      (names'.map (fun n => (options.configDir.join n,false))).insertionSort fun a b =>
        (compare (fileNameOf a.1) (fileNameOf b.1)).isLE = true := by
    simp [selectFragments,Function.comp_def]
  have hname : ∀ n, n ∈ names → nameOf (options.configDir.join n) = n :=
    fun n hn => i.before.nameOf_entry ((hmem n).mp hn)
  have hname' : ∀ n, n ∈ names' → nameOf (options.configDir.join n) = n :=
    fun n hn => i.after.nameOf_entry ((hmem' n).mp hn)
  have hkept : ∀ n, n ∈ keptNames options names → n ∈ names :=
    fun n hn => List.mem_of_mem_filter hn
  have hordered' : (names'.map fun n => (options.configDir.join n,false)).Pairwise fun a b =>
      fileNameOf a.1 = fileNameOf b.1 → (compare (nameOf a.1) (nameOf b.1)).isLE = true := by
    rw [List.pairwise_map]
    refine hsorted'.imp_of_mem fun {a b} ha hb hab _ => ?_
    rwa [hname' a ha,hname' b hb]
  rw [hinst,hinst',validateCandidates_names,selectFragments_eq,hreload,
    sorted_by_name (checked_ordered hutf hsorted hname),sorted_by_name hordered']
  have hleft : ((keptNames options names).map (fun n => (options.configDir.join n,false))++
      options.fragmentChanges.add.map (·,true)).map (fun a => nameOf a.1) =
        keptNames options names++options.fragmentChanges.add.map nameOf := by
    rw [List.map_append,List.map_map,List.map_map]
    congr 1
    exact (List.map_congr_left fun n hn => hname n (hkept n hn)).trans (List.map_id _)
  have hright : (names'.map fun n => (options.configDir.join n,false)).map
      (fun a : PathBuf × Bool => nameOf a.1) = names' := by
    rw [List.map_map]
    exact (List.map_congr_left hname').trans (List.map_id _)
  have hperm := i.names_perm hutf hnodup hmem hnodup' hmem'
  rw [← hleft,← hright] at hperm
  have hmaps := List.forall₂_eq_eq_eq ▸ KeyOrder.map_insertionSort byName hperm
  rw [List.forall₂_map_left_iff,List.forall₂_map_right_iff] at hmaps
  refine (Lists.forall₂_mem hmaps).imp fun a b ⟨ha,hb,hab⟩ => ?_
  rw [List.mem_insertionSort] at ha hb
  obtain ⟨n,hn,rfl⟩ := List.mem_map.mp hb
  rw [hname' n hn] at hab
  refine ⟨n,rfl,?_⟩
  rcases List.mem_append.mp ha with ha | ha
  · obtain ⟨m,hm,rfl⟩ := List.mem_map.mp ha
    rw [hname m (hkept m hm)] at hab
    exact .inl ⟨by rw [hab],(i.mem_keptNames hutf hmem).mp (hab ▸ hm)⟩
  · obtain ⟨p,hp,rfl⟩ := List.mem_map.mp ha
    exact .inr ⟨p,hp,rfl,(i.nameOf_eq_iff hp).mp hab⟩

/-! ### What is read -/

/-- The drop-in directory fails the ownership and mode checks. -/
def untrusted : Bool := hasErrors (checkOwnerAndMode options.configDir options "file" i.info)

/-- A reload reads the same content as the check.  It checks the directory of a candidate as
well. -/
structure SameRead (a b : PathBuf × Bool) : Prop where
  sources : List.Forall₂ (fun s s' => s.2 = s'.2) (readFragment env options a).1
    (readFragment env' options.reload b).1
  errors : hasErrors (readFragment env' options.reload b).2 =
    (hasErrors (readFragment env options a).2 || (a.2 && i.untrusted))
  nonempty : a.2 = true → (readFragment env options a).1.any (fun s => !s.2.2) = true

variable {i} in
theorem sameRead (hs : i.Steady) {a b : PathBuf × Bool} (h : i.Corresponds a b) :
    i.SameRead a b := by
  obtain ⟨n,rfl,⟨rfl,hkept⟩ | ⟨p,hp,rfl,hname⟩⟩ := h
  · have heq : readFragment env' options.reload (options.configDir.join n,false) =
        readFragment env options (options.configDir.join n,false) := by
      have hreload : readChecked env' (options.configDir.join n) options.reload true =
        readChecked env' (options.configDir.join n) options true := rfl
      simp only [readFragment,Bool.not_false,hreload,hs.kept n hkept]
    refine ⟨?_,by rw [heq]; simp,by simp⟩
    rw [heq]
    exact List.forall₂_same.mpr fun _ _ => rfl
  · obtain ⟨content,info,hread,hfile,htrusted,hwritten⟩ := i.readable p hp
    have hcheck : readFragment env options (p,true) = ([(p,content,false)],[]) := by
      simp only [readFragment,Bool.not_true,hread]
    have hfrag : Fragment i.installed n := i.fragment_installed_iff.mpr (.inl ⟨p,hp,hname⟩)
    have hreload : readFragment env' options.reload (options.configDir.join n,false) =
        ([(options.configDir.join n,content,false)],checkOwnerAndMode (options.configDir.join n)
          options ("containing directory " ++ i.canon.display) i.info) := by
      have hoptions : readChecked env' (options.configDir.join n) options.reload true =
        readChecked env' (options.configDir.join n) options true := rfl
      have hopened := i.after.readChecked_file hfrag (hwritten.resolved n hname)
        (hwritten.opened n hname) options
      rw [readOpened] at hopened
      simp only [hfile,checkOwnerAndMode_trusted htrusted] at hopened
      simp only [readFragment,Bool.not_false,hoptions,hopened]
      rfl
    refine ⟨?_,?_,by simp [hcheck]⟩
    · rw [hcheck,hreload]
      exact .cons rfl .nil
    · rw [hcheck,hreload]
      exact hasErrors_checkOwnerAndMode _ _ _ _ _ _

/-- The sources that a list of fragments gives. -/
def fragmentSources (env : LoadEnv) (options : LoadOptions) (l : List (PathBuf × Bool)) : Sources :=
  (l.map (readFragment env options)).flatMap Prod.fst

/-- The issues of reading a list of fragments. -/
def fragmentIssues (env : LoadEnv) (options : LoadOptions) (l : List (PathBuf × Bool)) : Issues :=
  (l.map (readFragment env options)).flatMap Prod.snd

variable {i} in
theorem sameSources (hs : i.Steady) {l l' : List (PathBuf × Bool)}
    (h : List.Forall₂ i.Corresponds l l') :
    List.Forall₂ (fun s s' => s.2 = s'.2) (fragmentSources env options l)
      (fragmentSources env' options.reload l') := by
  induction h with
  | nil => exact .nil
  | cons hab _ ih => exact List.rel_append (sameRead hs hab).sources ih

variable {i} in
theorem sameErrors (hs : i.Steady) {l l' : List (PathBuf × Bool)}
    (h : List.Forall₂ i.Corresponds l l') :
    hasErrors (fragmentIssues env' options.reload l') =
      (hasErrors (fragmentIssues env options l) || (l.any Prod.snd && i.untrusted)) := by
  induction h with
  | nil => rfl
  | cons hab _ ih =>
    have hstep : ∀ (env : LoadEnv) (options : LoadOptions) a l,
        hasErrors (fragmentIssues env options (a::l)) =
          (hasErrors (readFragment env options a).2 || hasErrors (fragmentIssues env options l)) :=
      fun _ _ _ _ => hasErrors_append _ _
    rw [hstep,hstep,(sameRead hs hab).errors,ih,List.any_cons,Bool.and_or_distrib_right]
    ac_rfl

variable {i} in
/-- A candidate is a source that is not the main file. -/
theorem any_candidate (hs : i.Steady) {l l' : List (PathBuf × Bool)}
    (h : List.Forall₂ i.Corresponds l l') (hany : l.any Prod.snd = true) :
    (fragmentSources env options l).any (fun s => !s.2.2) = true := by
  induction h with
  | nil => cases hany
  | cons hab _ ih =>
    rw [fragmentSources,List.map_cons,List.flatMap_cons,List.any_append,Bool.or_eq_true]
    rcases Bool.or_eq_true _ _ ▸ hany with ha | hl
    · exact .inl ((sameRead hs hab).nonempty ha)
    · exact .inr (ih hl)

/-! ### Loading -/

include i in
theorem checkOwnership_reload : checkOwnership env' options.configDir options.reload true =
    checkOwnership env options.configDir options true := by
  have hcheck : ∀ what info, checkOwnerAndMode options.configDir options.reload what info =
    checkOwnerAndMode options.configDir options what info := fun _ _ => rfl
  have hmeta : ∀ p ∈ i.canon::i.canon.parent.toList, env'.metadata p = env.metadata p := by
    intro p hp
    rcases List.mem_cons.mp hp with rfl | hp
    · rw [i.before.stated,i.after.stated]
    · exact i.above p (Option.mem_toList.mp hp)
  simp only [checkOwnership,i.before.resolved,i.after.resolved,hcheck]
  refine List.flatMap_congr fun p hp => ?_
  rw [hmeta p hp]
  rfl

/-- A directory that fails its checks is reported. -/
theorem hasErrors_checkOwnership (h : i.untrusted = true) :
    hasErrors (checkOwnership env options.configDir options true) = true := by
  simp only [checkOwnership,i.before.resolved,List.flatMap_cons,hasErrors_append,i.before.stated]
  rw [if_pos trivial,Bool.or_eq_true]
  exact .inl h

include i in
/-- Every name to remove is installed. -/
theorem checkRemovals_nil :
    checkRemovals options (installedFragments env options).1 = [] := by
  obtain ⟨names,hinst,-,-,hmem⟩ := i.before.installedFragments options rfl
  rw [hinst,checkRemovals,List.flatMap_eq_nil_iff]
  intro name hname
  obtain ⟨n,hentry,hn,hfrag⟩ := i.removed name hname
  refine if_pos (List.any_eq_true.mpr ⟨options.configDir.join n,?_,?_⟩)
  · exact List.mem_map_of_mem ((hmem n).mpr ⟨hfrag,hentry⟩)
  · rw [fileNameOf_eq (i.before.fileName_entry ⟨hfrag,hentry⟩),hn]
    simp

include i in
/-- Candidates with UTF-8 names are accepted. -/
theorem accepted (hutf : options.fragmentChanges.Utf8) :
    hasErrors (validateCandidates options.fragmentChanges).2 = false := by
  have hname : ∀ p ∈ options.fragmentChanges.add, p.fileName = some (pathOf (fileNameOf p)) := by
    intro p hp
    obtain ⟨s,hs⟩ := hutf p hp
    rw [fileNameOf_eq hs,toStr_pathOf,Option.getD_some,hs]
  refine (hasErrors_validateCandidates _).mpr ⟨fun p hp => ?_,?_⟩
  · obtain ⟨n,hn,hfrag⟩ := i.named p hp
    cases hn.symm.trans (hname p hp)
    exact selectable_of_isFragment hfrag
  · refine List.Nodup.map_on (fun p hp q hq heq => ?_) (List.Nodup.of_map _ i.distinct)
    exact List.inj_on_of_nodup_map i.distinct hp hq
      ((hname p hp).trans (heq ▸ (hname q hq).symm))

variable {i} in
theorem readMain_reload (hs : i.Steady) : readMain env' options.reload = readMain env options := by
  have hread : readChecked env' options.reload.mainFile options.reload true =
    readChecked env' options.mainFile options true := rfl
  simp only [readMain,hread,hs.main]
  rfl

include i in
/-- Sources with the same content are parsed alike. -/
theorem parse_alike {l l' : Sources} (h : List.Forall₂ (fun s s' => s.2 = s'.2) l l') :
    List.Forall₂ (fun f f' => f.2 = f'.2) ((l.map (parseSource env)).filterMap Prod.fst)
      ((l'.map (parseSource env')).filterMap Prod.fst) ∧
    hasErrors ((l.map (parseSource env)).flatMap Prod.snd) =
      hasErrors ((l'.map (parseSource env')).flatMap Prod.snd) := by
  have hone : ∀ s s' : PathBuf × Text × Bool, s.2 = s'.2 →
      Option.Rel (fun f f' => f.2 = f'.2) (parseSource env s).1 (parseSource env' s').1 ∧
        hasErrors (parseSource env s).2 = hasErrors (parseSource env' s').2 := by
    intro s s' h
    unfold parseSource
    rw [i.parse,h]
    cases env.parse s'.2.1 with
    | ok raw => exact ⟨.some rfl,rfl⟩
    | error e => exact ⟨.none,rfl⟩
  constructor
  · rw [List.filterMap_map,List.filterMap_map]
    exact List.rel_filterMap (fun s s' hs => (hone s s' hs).1) h
  · rw [List.flatMap_map,List.flatMap_map]
    exact hasErrors_flatMap_rel (fun s s' hs => (hone s s' hs).2) h

variable {i} in
/-- What is parsed is the same but for the paths, and an error is found in both or in neither. -/
theorem loadFiles_alike (hs : i.Steady) (hutf : options.fragmentChanges.Utf8) :
    List.Forall₂ (fun f f' => f.2 = f'.2) (loadFiles env options).1
      (loadFiles env' options.reload).1 ∧
    hasErrors (loadFiles env options).2 = hasErrors (loadFiles env' options.reload).2 := by
  have hsel := i.selected hutf
  set l := selectFragments options.fragmentChanges (validateCandidates options.fragmentChanges).1
    (installedFragments env options).1 with hl
  set l' := selectFragments ⟨[],[]⟩ [] (installedFragments env' options.reload).1 with hl'
  have hsources := List.rel_append (List.forall₂_same.mpr fun s _ => rfl :
    List.Forall₂ (fun s s' : PathBuf × Text × Bool => s.2 = s'.2) (readMain env options).1
      (readMain env options).1) (sameSources hs hsel)
  obtain ⟨hparsed,hparseErrors⟩ := i.parse_alike hsources
  have hcheck : loadFiles env options =
      ((((readMain env options).1++fragmentSources env options l).map (parseSource env)).filterMap
        Prod.fst,
      (readMain env options).2++(validateCandidates options.fragmentChanges).2++
        (installedFragments env options).2++
        checkRemovals options (installedFragments env options).1++fragmentIssues env options l++
        (if ((readMain env options).1++fragmentSources env options l).any (fun s => !s.2.2) then
          checkOwnership env options.configDir options true else [])++
        (((readMain env options).1++fragmentSources env options l).map (parseSource env)).flatMap
          Prod.snd) := rfl
  have hreload : loadFiles env' options.reload =
      ((((readMain env' options.reload).1++fragmentSources env' options.reload l').map
        (parseSource env')).filterMap Prod.fst,
      (readMain env' options.reload).2++[]++(installedFragments env' options.reload).2++[]++
        fragmentIssues env' options.reload l'++
        (if ((readMain env' options.reload).1++fragmentSources env' options.reload l').any
          (fun s => !s.2.2) then
          checkOwnership env' options.configDir options.reload true else [])++
        (((readMain env' options.reload).1++fragmentSources env' options.reload l').map
          (parseSource env')).flatMap Prod.snd) := rfl
  have hnil : hasErrors [] = false := rfl
  rw [hcheck,hreload,readMain_reload hs]
  refine ⟨hparsed,?_⟩
  simp only [hasErrors_append,i.accepted hutf,i.before.installedFragments_issues options rfl,
    i.after.installedFragments_issues options.reload rfl,i.checkRemovals_nil,sameErrors hs hsel,
    i.checkOwnership_reload,hparseErrors,any_fragment hsources,hnil,Bool.or_false]
  cases hany : l.any Prod.snd && i.untrusted with
  | false => rw [Bool.or_false]
  | true =>
    have hown := i.hasErrors_checkOwnership (Bool.and_eq_true _ _ ▸ hany).2
    have hfrag := any_candidate hs hsel (Bool.and_eq_true _ _ ▸ hany).1
    have hsome : ((readMain env options).1++fragmentSources env' options.reload l').any
        (fun s => !s.2.2) = true := by
      rw [← any_fragment hsources,List.any_append,hfrag,Bool.or_true]
    rw [if_pos hsome,hown]
    simp

variable {i} in
/-- Candidates with UTF-8 names load as the reload does. -/
theorem Steady.predicts (hs : i.Steady) (hutf : options.fragmentChanges.Utf8) :
    Predicts (load env options) (load env' options.reload) := by
  obtain ⟨hfiles,herrors⟩ := loadFiles_alike hs hutf
  obtain ⟨hsettings,hassembled⟩ := assemble_alike env.escapeDebug hfiles
  have hpaths := hsettings.pathsExist hs.directories
  constructor
  · rw [load_ok_iff,load_ok_iff,i.escapeDebug,herrors,hassembled,hpaths]
    rfl
  · intro loaded loaded' h h'
    rw [(load_ok h).1,(load_ok h').1,i.escapeDebug]
    exact hsettings

end Installation
end Byssus
