import Byssus.Execute
import Byssus.Library.DirTree
import Byssus.Library.Hoare

/-! The directories that mounts are made on.  Paths are walked call by call beneath a trusted root,
while other processes make, rename and remove directories and change the mounts. -/
namespace Byssus

open Program Prog DirTree

/-- Where a directory is: the mount it is on, and its inode. -/
abbrev Place := ℕ × DevIno

abbrev FsTree := Tree DevIno Text

inductive FsError
  | again
  | tree (fault : Fault)
  | invalidInput (message : String)
  | other (code : ℕ)
  deriving DecidableEq

/-- `EINVAL`, the error of a path with a NUL byte. -/
def FsError.inval : FsError := .other 22

/-- The directory that a descriptor shows: the root of the mount on it, if there is one. -/
def Fd.place (fd : Fd Place) : Place :=
  match fd.mount with
  | some m => (m.identity.mntId,m.identity.root)
  | none => fd.dir

/-- Descriptors, as a mount table makes them. -/
def fdView (table : Table Place) : View (Fd Place) DevIno where
  inode fd := fd.place.2
  enter fd i := table.openDir (fd.place.1,i)

/-! ### The calls -/

/-- One component of a path; the second part holds the directories passed on the way. -/
def beneathStep (v : View (Fd Place) DevIno) (tree : FsTree) :
    Fd Place × List (Fd Place) → Text → Except Fault (Fd Place × List (Fd Place))
  | (fd,passed),component =>
    if component = [] || component = ['.'] then .ok (fd,passed)
    else if component = ['.','.'] then
      match passed with
      | [] => .error .xdev
      | parent::rest => .ok (parent,rest)
    else (v.child tree fd component).map (·,fd::passed)

/-- `openat2` of a directory with `CONFINED`. -/
def openBeneath (v : View (Fd Place) DevIno) (tree : FsTree) (fd : Fd Place) (path : Text) :
    Except Fault (Fd Place) :=
  if path = [] then .error .noent
  else if path.head? = some '/' then .error .xdev
  else ((path.splitOn '/').foldlM (beneathStep v tree) (fd,[])).map Prod.fst

/-- What the outside world does during the file system calls of one step. -/
structure TreeEnv where
  /-- The calls that walk no path. -/
  base : StepEnv Place
  /-- The descriptor of a trusted root. -/
  root : AbsPath → Fd Place
  /-- What other processes change just before the call with this number. -/
  others : ℕ → FsTree × Table Place → FsTree × Table Place
  fault : ℕ → Option FsError
  /-- The inode of a directory that is made. -/
  fresh : ℕ → DevIno
  strerror : FsError → String

/-- The directories and the rest of the world.  Each change that Byssus makes to a directory is kept
with the tree it was made to. -/
structure TreeWorld where
  tree : FsTree
  world : World Place
  calls : ℕ
  changes : List (FsTree × Change DevIno Text)

abbrev FsProg (α : Type) := Prog TreeWorld FsError α

section
variable (env : TreeEnv)

/-- Other processes act, and the call is counted. -/
def TreeEnv.disturb (w : TreeWorld) : TreeWorld :=
  let (tree,table) := env.others w.calls (w.tree,w.world.table)
  {w with tree, world := {w.world with table}, calls := w.calls+1}

/-- The start of a call: its number, if it does not fail. -/
def fsCall : FsProg ℕ := fun w =>
  match env.fault w.calls with
  | some e => (.error e,env.disturb w)
  | none => (.ok w.calls,env.disturb w)

def openat2 (fd : Fd Place) (path : Text) : FsProg (Fd Place) :=
  if path.contains nul then fail .inval
  else do
    let _ ← fsCall env
    let opened ← gets fun w => openBeneath (fdView w.world.table) w.tree fd path
    ofExcept (opened.mapError .tree)

/-- `EAGAIN_RETRIES`. -/
def eagainRetries : ℕ := 16

/-- `retry_eagain`, with the retries that are left. -/
def retryEagain {α : Type} (call : FsProg α) : ℕ → FsProg α
  | 0 => call
  | retries+1 => do
    let result ← (call.attempt : FsProg (Except FsError α))
    match result with
    | .error .again => retryEagain call retries
    | result => ofExcept result

/-- `resolve_dir`. -/
def resolveDir (root : Fd Place) (relative : Text) : FsProg (Fd Place) :=
  retryEagain (openat2 env root relative) eagainRetries

/-- A change of the tree that the calls allow. -/
def alter (c : FsTree → Except Fault (Change DevIno Text)) : FsProg Unit := do
  let allowed ← gets fun w => c w.tree
  let c ← ofExcept (allowed.mapError .tree)
  modify fun w => {w with tree := w.tree.apply c, changes := w.changes++[(w.tree,c)]}

def mkdirat (parent : Fd Place) (component : Text) : FsProg Unit :=
  if component.contains nul then fail .inval
  else do
    let k ← fsCall env
    alter fun tree => tree.mkdir parent.place.2 component (env.fresh k)

/-- `ensure_one`. -/
def ensureOne (parent : Fd Place) (component : Text) : FsProg (Fd Place) :=
  if component = [] || component = ['.'] || component = ['.','.'] || component.contains '/' then
    fail (.invalidInput ("'" ++ String.ofList component ++ "' is not a plain directory name"))
  else do
    let made ← ((mkdirat env parent component).attempt : FsProg (Except FsError Unit))
    match made with
    | .ok () => resolveDir env parent component
    | .error (.tree .exist) => resolveDir env parent component
    | .error e => fail e

/-- The loop of `ensure_dirs_beneath` over the components behind the first. -/
def ensureRest : Fd Place → List Text → FsProg (Fd Place)
  | current,[] => pure current
  | current,component::rest => do
    let current ← ensureOne env current component
    ensureRest current rest

/-- `ensure_dirs_beneath`. -/
def ensureDirs (root : Fd Place) : List Text → FsProg (Fd Place)
  | [] => fail (.invalidInput "no path components")
  | first::rest => do
    let current ← ensureOne env root first
    ensureRest env current rest

/-- `unlinkat` with `AT_REMOVEDIR`; it may also fail as the directory is busy elsewhere. -/
def unlinkDir (parent : Fd Place) (leaf : Text) : FsProg Unit :=
  if leaf.contains nul then fail .inval
  else do
    let _ ← fsCall env
    let table ← gets fun w => w.world.table
    alter fun tree =>
      tree.rmdir (fun i => (table (parent.place.1,i)).isEmpty = false) parent.place.2 leaf

/-- `remove_empty_dir`. -/
def removeEmptyDir (root : Fd Place) (relativeParent : Option Text) (leaf : Text) : FsProg Bool := do
  let parent ← match relativeParent with
    | some relative => resolveDir env root relative
    | none => pure root
  let removed ← ((unlinkDir env parent leaf).attempt : FsProg (Except FsError Unit))
  match removed with
  | .ok () => pure true
  | .error (.tree .notempty) | .error (.tree .busy) | .error (.tree .noent) => pure false
  | .error e => fail e

end

/-- `rsplit_once` at a slash. -/
def rsplitOnce (path : Text) : Option (Text × Text) :=
  match (path.splitOn '/').reverse with
  | leaf::parent::above => some (List.intercalate ['/'] (parent::above).reverse,leaf)
  | _ => none

/-! ### Clean paths -/

section
variable {v : View (Fd Place) DevIno} {tree : FsTree} {fd : Fd Place}

theorem beneathStep_plain {passed : List (Fd Place)} {c : Text} (h : isPlain c = true) :
    beneathStep v tree (fd,passed) c = (v.child tree fd c).map (·,fd::passed) := by
  obtain ⟨h0,h1,h2,-⟩ := (isPlain_iff c).mp h
  simp [beneathStep,h0,h1,h2]

theorem foldlM_beneathStep {cs : List Text} (h : ∀ c ∈ cs, isPlain c = true)
    (passed : List (Fd Place)) :
    (cs.foldlM (beneathStep v tree) (fd,passed)).map Prod.fst = v.walk tree fd cs := by
  induction cs generalizing fd passed with
  | nil => rfl
  | cons c cs ih =>
    rw [List.foldlM_cons,beneathStep_plain (h c (by simp))]
    simp only [View.walk,List.foldlM_cons]
    cases hc : v.child tree fd c with
    | error e => rfl
    | ok q => exact ih (fun c' hc' => h c' (by simp [hc'])) (fd::passed)

/-- A clean path is walked entry by entry. -/
theorem openBeneath_clean {path : Text} (h : isCleanRelative path = true) :
    openBeneath v tree fd path = v.walk tree fd (path.splitOn '/') := by
  have hplain := isCleanRelative_iff.mp h
  have hne : path ≠ [] := by
    rintro rfl
    have := hplain [] (by simp)
    simp [isPlain] at this
  have hslash : path.head? ≠ some '/' := by
    intro hh
    obtain ⟨rest,rfl⟩ := List.head?_eq_some_iff.mp hh
    have := hplain [] (by simp [List.splitOn_cons_eq_if_modifyHead])
    simp [isPlain] at this
  rw [openBeneath,if_neg hne,if_neg hslash]
  exact foldlM_beneathStep hplain []

theorem openBeneath_plain {c : Text} (h : isPlain c = true) :
    openBeneath v tree fd c = v.child tree fd c := by
  have hsplit : c.splitOn '/' = [c] := List.splitOn_eq_singleton ((isPlain_iff c).mp h).2.2.2.1
  have hclean : isCleanRelative c = true := by
    rw [isCleanRelative_iff,hsplit]
    simpa using h
  rw [openBeneath_clean hclean,hsplit]
  simp [View.walk]

end

/-! ### What the calls keep -/

section
variable {env : TreeEnv} {P : TreeWorld → Prop} {F : FsError → Prop}

/-- The error is one that the outside world chose. -/
def TreeEnv.Fails (env : TreeEnv) (e : FsError) : Prop := ∃ k, env.fault k = some e

theorem fsCall_triple (h : ∀ w, P w → P (env.disturb w)) :
    Triple P (fsCall env) (fun _ => P) fun e w => P w ∧ env.Fails e := by
  intro w hw
  have hw' := h w hw
  have hrun : (fsCall env).run w = match env.fault w.calls with
      | some e => (.error e,env.disturb w)
      | none => (.ok w.calls,env.disturb w) := rfl
  rw [hrun]
  cases hf : env.fault w.calls with
  | none => exact ⟨fun k v hv => by cases hv; exact hw',fun e v hv => nomatch hv⟩
  | some e => exact ⟨fun k v hv => (nomatch hv),fun e v hv => by cases hv; exact ⟨hw',_,hf⟩⟩

/-- The path is not one, or it leads to no directory. -/
def NotOpened (fd : Fd Place) (path : Text) (e : FsError) (w : TreeWorld) : Prop :=
  (nul ∈ path ∧ e = .inval) ∨
    ∃ f, openBeneath (fdView w.world.table) w.tree fd path = .error f ∧ e = .tree f

/-- What `openat2` returns, the tree shows when it ends. -/
theorem openat2_triple (h : Triple P (fsCall env) (fun _ => P) fun e w => P w ∧ F e)
    (fd : Fd Place) (path : Text) :
    Triple P (openat2 env fd path)
      (fun q w => P w ∧ openBeneath (fdView w.world.table) w.tree fd path = .ok q)
      fun e w => P w ∧ (F e ∨ NotOpened fd path e w) := by
  unfold openat2
  split_ifs with hn
  · exact .fail fun w hw => ⟨hw,.inr (.inl ⟨by simpa using hn,rfl⟩)⟩
  refine .bind (h.mono (fun _ hs => hs) (fun _ _ hs => hs) fun _ _ hs => ⟨hs.1,.inl hs.2⟩)
    fun _ => ?_
  refine .bind (Q := fun opened w => P w ∧
    opened = openBeneath (fdView w.world.table) w.tree fd path) (.gets fun w hw => ⟨hw,rfl⟩)
    fun opened => .ofExcept ?_ ?_
  · rintro q w hq ⟨hw,rfl⟩
    cases ho : openBeneath (fdView w.world.table) w.tree fd path with
    | error f => rw [ho] at hq; cases hq
    | ok q' => rw [ho] at hq; cases hq; exact ⟨hw,rfl⟩
  · rintro e w he ⟨hw,rfl⟩
    cases ho : openBeneath (fdView w.world.table) w.tree fd path with
    | error f => rw [ho] at he; cases he; exact ⟨hw,.inr (.inr ⟨f,ho,rfl⟩)⟩
    | ok q' => rw [ho] at he; cases he

/-- What a call keeps, its retries keep. -/
theorem retryEagain_triple {α : Type} {call : FsProg α} {Q : α → TreeWorld → Prop}
    {E : FsError → TreeWorld → Prop} (hcall : Triple P call Q E) (hE : ∀ e w, E e w → P w)
    (retries : ℕ) : Triple P (retryEagain call retries) Q E := by
  induction retries with
  | zero => exact hcall
  | succ retries ih =>
    refine .bind (.attempt hcall) fun result => ?_
    cases result with
    | ok a => exact .pure fun w hw => hw.1 a rfl
    | error e =>
      cases e with
      | again => exact ih.mono (fun w hw => hE _ w (hw.2 _ rfl)) (fun _ _ hs => hs) fun _ _ hs => hs
      | _ => exact .fail fun w hw => hw.2 _ rfl

theorem resolveDir_triple (h : Triple P (fsCall env) (fun _ => P) fun e w => P w ∧ F e)
    (fd : Fd Place) (path : Text) :
    Triple P (resolveDir env fd path)
      (fun q w => P w ∧ openBeneath (fdView w.world.table) w.tree fd path = .ok q)
      fun e w => P w ∧ (F e ∨ NotOpened fd path e w) :=
  retryEagain_triple (openat2_triple h fd path) (fun _ _ hs => hs.1) _

/-- An alteration that is allowed is made, and kept with the tree it was made to. -/
theorem alter_triple {c : FsTree → Except Fault (Change DevIno Text)}
    (hc : ∀ w a, P w → c w.tree = .ok a →
      P {w with tree := w.tree.apply a, changes := w.changes++[(w.tree,a)]}) :
    Triple P (alter c) (fun _ => P) fun e w => P w ∧ ∃ f, c w.tree = .error f ∧ e = .tree f := by
  refine .bind (Q := fun allowed w => P w ∧ allowed = c w.tree)
    (.gets fun w hw => ⟨hw,rfl⟩) fun allowed => ?_
  refine .bind (Q := fun a w => P w ∧ c w.tree = .ok a) (.ofExcept ?_ ?_) fun a => ?_
  · rintro a w ha ⟨hw,rfl⟩
    cases hcw : c w.tree with
    | error f => rw [hcw] at ha; cases ha
    | ok a' => rw [hcw] at ha; cases ha; exact ⟨hw,rfl⟩
  · rintro e w he ⟨hw,rfl⟩
    cases hcw : c w.tree with
    | error f => rw [hcw] at he; cases he; exact ⟨hw,f,rfl,rfl⟩
    | ok a => rw [hcw] at he; cases he
  · exact .modify fun w hw => hc w a hw.1 hw.2

/-- Why `mkdirat` may fail. -/
def NotMade (env : TreeEnv) (F : FsError → Prop) (parent : Fd Place) (c : Text) (e : FsError)
    (w : TreeWorld) : Prop :=
  F e ∨ ∃ k f, w.tree.mkdir parent.place.2 c (env.fresh k) = .error f ∧ e = .tree f

theorem mkdirat_triple (h : Triple P (fsCall env) (fun _ => P) fun e w => P w ∧ F e)
    (parent : Fd Place) (c : Text)
    (hc : ∀ k w a, nul ∉ c → P w → w.tree.mkdir parent.place.2 c (env.fresh k) = .ok a →
      P {w with tree := w.tree.apply a, changes := w.changes++[(w.tree,a)]}) :
    Triple P (mkdirat env parent c) (fun _ w => P w ∧ nul ∉ c)
      fun e w => P w ∧ ((nul ∈ c ∧ e = .inval) ∨ nul ∉ c ∧ NotMade env F parent c e w) := by
  unfold mkdirat
  split_ifs with hn
  · exact .fail fun w hw => ⟨hw,.inl ⟨by simpa using hn,rfl⟩⟩
  have hn : nul ∉ c := by simpa using hn
  refine .bind (h.mono (fun _ hs => hs) (fun _ _ hs => hs)
    fun _ _ hs => ⟨hs.1,.inr ⟨hn,.inl hs.2⟩⟩) fun k => ?_
  refine (alter_triple fun w a hw ha => hc k w a hn hw ha).mono (fun _ hs => hs)
    (fun _ w hw => ⟨hw,hn⟩) fun e w hw => ?_
  obtain ⟨hw,f,hf,rfl⟩ := hw
  exact ⟨hw,.inr ⟨hn,.inr ⟨k,f,hf,rfl⟩⟩⟩

/-- `ensure_one` refuses what is not plain. -/
theorem plain_of_checked {c : Text} (hc : ¬(c = [] || c = ['.'] || c = ['.','.'] ||
    c.contains '/') = true) (hn : nul ∉ c) : isPlain c = true := by
  simp only [Bool.or_eq_true,decide_eq_true_eq,List.contains_iff_mem,not_or] at hc
  exact (isPlain_iff c).mpr ⟨hc.1.1.1,hc.1.1.2,hc.1.2,hc.2,hn⟩

/-- A component that was made or found is a directory. -/
theorem ensureOne_triple (h : Triple P (fsCall env) (fun _ => P) fun e w => P w ∧ F e)
    (parent : Fd Place) (c : Text)
    (hc : ∀ k w a, isPlain c = true → P w →
      w.tree.mkdir parent.place.2 c (env.fresh k) = .ok a →
      P {w with tree := w.tree.apply a, changes := w.changes++[(w.tree,a)]}) :
    Triple P (ensureOne env parent c)
      (fun fd w => P w ∧ isPlain c = true ∧
        (fdView w.world.table).child w.tree parent c = .ok fd) fun _ => P := by
  unfold ensureOne
  split_ifs with hbad
  · exact .fail fun _ hw => hw
  have hresolve : nul ∉ c → Triple P (resolveDir env parent c)
      (fun fd w => P w ∧ isPlain c = true ∧
        (fdView w.world.table).child w.tree parent c = .ok fd) fun _ => P := by
    intro hn
    have hplain := plain_of_checked hbad hn
    refine (resolveDir_triple h parent c).mono (fun _ hs => hs) ?_ fun _ _ hs => hs.1
    rintro fd w ⟨hw,ho⟩
    rw [openBeneath_plain hplain] at ho
    exact ⟨hw,hplain,ho⟩
  refine .bind (.attempt (mkdirat_triple h parent c fun k w a hn =>
    hc k w a (plain_of_checked hbad hn))) fun made => ?_
  split
  · exact fun w hw => hresolve (hw.1 () rfl).2 w (hw.1 () rfl).1
  · intro w hw
    obtain ⟨hP,⟨-,hi⟩ | ⟨hn,-⟩⟩ := hw.2 _ rfl
    · cases hi
    · exact hresolve hn w hP
  · exact .fail fun w hw => (hw.2 _ rfl).1

/-- The calls keep `P`, and so does a directory made for one of the components. -/
structure KeepsWalk (env : TreeEnv) (components : List Text) (P : TreeWorld → Prop) : Prop where
  call : ∀ w, P w → P (env.disturb w)
  made : ∀ (parent : Fd Place) c k w a, c ∈ components → isPlain c = true → P w →
    w.tree.mkdir parent.place.2 c (env.fresh k) = .ok a →
    P {w with tree := w.tree.apply a, changes := w.changes++[(w.tree,a)]}

/-- The descriptor is that of a directory just looked up. -/
def Reached (fd : Fd Place) (w : TreeWorld) : Prop :=
  ∃ parent c, (fdView w.world.table).child w.tree parent c = .ok fd

theorem Reached.opened {fd : Fd Place} {w : TreeWorld} (h : Reached fd w) :
    fd = w.world.table.openDir fd.dir := by
  obtain ⟨parent,c,hc⟩ := h
  obtain ⟨i,-,rfl⟩ := View.child_ok_iff.mp hc
  rfl

section
variable {components : List Text}

theorem KeepsWalk.ensureOne (h : KeepsWalk env components P) (parent : Fd Place) {c : Text}
    (hc : c ∈ components) : Triple P (ensureOne env parent c)
      (fun fd w => P w ∧ Reached fd w ∧ isPlain c = true) fun _ => P := by
  refine (ensureOne_triple (fsCall_triple h.call) parent c fun k w a hplain =>
    h.made parent c k w a hc hplain).mono (fun _ hs => hs) ?_ fun _ _ hs => hs
  rintro fd w ⟨hw,hplain,hchild⟩
  exact ⟨hw,⟨parent,c,hchild⟩,hplain⟩

theorem KeepsWalk.ensureRest (h : KeepsWalk env components P) {rest : List Text}
    (hrest : rest ⊆ components) (current : Fd Place) :
    Triple (fun w => P w ∧ Reached current w) (ensureRest env current rest)
      (fun fd w => P w ∧ Reached fd w ∧ ∀ c ∈ rest, isPlain c = true) fun _ => P := by
  induction rest generalizing current with
  | nil => exact .pure fun w hw => ⟨hw.1,hw.2,by simp⟩
  | cons c rest ih =>
    obtain ⟨hc,hrest⟩ := List.cons_subset.mp hrest
    refine .bind ((h.ensureOne current hc).mono (fun _ hs => hs.1) (fun _ _ hs => hs)
      fun _ _ hs => hs) fun next => ?_
    rintro w ⟨hw,hreached,hplain⟩
    refine ((ih hrest next).mono (fun _ hs => hs) ?_ fun _ _ hs => hs) w ⟨hw,hreached⟩
    rintro fd u ⟨hu,hreached,hrest⟩
    exact ⟨hu,hreached,by simpa using ⟨hplain,hrest⟩⟩

theorem KeepsWalk.ensureDirs (h : KeepsWalk env components P) (root : Fd Place) :
    Triple P (ensureDirs env root components)
      (fun fd w => P w ∧ Reached fd w ∧ ∀ c ∈ components, isPlain c = true) fun _ => P := by
  cases components with
  | nil => exact .fail fun _ hw => hw
  | cons c rest =>
    refine .bind (h.ensureOne root (by simp)) fun first => ?_
    rintro w ⟨hw,hreached,hplain⟩
    refine ((h.ensureRest (List.subset_cons_self c rest) first).mono (fun _ hs => hs) ?_
      fun _ _ hs => hs) w ⟨hw,hreached⟩
    rintro fd u ⟨hu,hreached,hrest⟩
    exact ⟨hu,hreached,by simpa using ⟨hplain,hrest⟩⟩

end

theorem unlinkDir_keeps (hcall : ∀ w, P w → P (env.disturb w)) (parent : Fd Place) (leaf : Text)
    (hremove : ∀ (busy : DevIno → Bool) w a, nul ∉ leaf → P w →
      w.tree.rmdir busy parent.place.2 leaf = .ok a →
      P {w with tree := w.tree.apply a, changes := w.changes++[(w.tree,a)]}) :
    Keeps P (unlinkDir env parent leaf) fun _ => True := by
  unfold unlinkDir
  split_ifs with hn
  · exact .fail
  refine .bind (Q := fun _ => True) ((fsCall_triple hcall).mono (fun _ hs => hs)
    (fun _ _ hs => ⟨hs,trivial⟩) fun _ _ hs => hs.1) fun _ _ => ?_
  refine .bind (Q := fun _ => True) (.gets fun _ _ => trivial) fun table _ => ?_
  exact (alter_triple fun w a => hremove _ w a (by simpa using hn)).mono (fun _ hs => hs)
    (fun _ _ hs => ⟨hs,trivial⟩) fun _ _ hs => hs.1

theorem removeEmptyDir_keeps (hcall : ∀ w, P w → P (env.disturb w)) {leaf : Text}
    (hremove : ∀ (busy : DevIno → Bool) (parent : Fd Place) w a, nul ∉ leaf → P w →
      w.tree.rmdir busy parent.place.2 leaf = .ok a →
      P {w with tree := w.tree.apply a, changes := w.changes++[(w.tree,a)]})
    (root : Fd Place) (relativeParent : Option Text) :
    Keeps P (removeEmptyDir env root relativeParent leaf) fun _ => True := by
  have hunlink : ∀ parent, Keeps P (removeEmptyDir env parent none leaf) fun _ => True := by
    intro parent
    refine .bind (Q := fun _ => True) (.pure trivial) fun q _ => ?_
    refine .bind (.attempt (unlinkDir_keeps hcall q leaf fun busy => hremove busy q))
      fun removed _ => ?_
    split
    · exact .pure trivial
    · exact .pure trivial
    · exact .pure trivial
    · exact .pure trivial
    · exact .fail
  cases relativeParent with
  | none => exact hunlink root
  | some relative =>
    refine .bind (Q := fun _ => True) ((resolveDir_triple (fsCall_triple hcall) root relative).mono
      (fun _ hs => hs) (fun _ _ hs => ⟨hs.1,trivial⟩) fun _ _ hs => hs.1) fun parent _ => ?_
    exact hunlink parent

end

/-! ### While others only add -/

/-- Other processes make directories and files, but take nothing away, and leave the mounts. -/
structure TreeEnv.OnlyAdds (env : TreeEnv) : Prop where
  tree : ∀ (k : ℕ) (tree : FsTree) (table : Table Place),
    tree.Extends (env.others k (tree,table)).1
  table : ∀ (k : ℕ) (tree : FsTree) (table : Table Place), (env.others k (tree,table)).2 = table

namespace TreeWorld

/-- Nothing was taken away. -/
structure Grown (w w' : TreeWorld) : Prop where
  tree : w.tree.Extends w'.tree
  world : w'.world = w.world

/-- And Byssus changed nothing. -/
structure Idle (w w' : TreeWorld) : Prop extends Grown w w' where
  changes : w'.changes = w.changes

variable {w u w' : TreeWorld}

theorem Grown.refl (w : TreeWorld) : Grown w w := ⟨.refl _,rfl⟩

theorem Grown.trans (h : Grown w u) (h' : Grown u w') : Grown w w' :=
  ⟨h.tree.trans h'.tree,h'.world.trans h.world⟩

theorem Idle.refl (w : TreeWorld) : Idle w w := ⟨.refl _,rfl⟩

theorem Idle.trans (h : Idle w u) (h' : Idle u w') : Idle w w' :=
  ⟨h.toGrown.trans h'.toGrown,h'.changes.trans h.changes⟩

/-- A path that leads somewhere still leads there. -/
theorem Grown.walk (h : Grown w w') {fd q : Fd Place} {cs : List Text}
    (hw : (fdView w.world.table).walk w.tree fd cs = .ok q) :
    (fdView w'.world.table).walk w'.tree fd cs = .ok q := by
  rw [h.world]
  exact View.walk_extends h.tree hw

theorem Grown.child (h : Grown w w') {fd q : Fd Place} {c : Text}
    (hc : (fdView w.world.table).child w.tree fd c = .ok q) :
    (fdView w'.world.table).child w'.tree fd c = .ok q := by
  rw [h.world]
  exact View.child_extends h.tree hc

end TreeWorld

open TreeWorld

section
variable {env : TreeEnv}

theorem TreeEnv.OnlyAdds.idle (h : env.OnlyAdds) (w : TreeWorld) : Idle w (env.disturb w) :=
  ⟨⟨h.tree _ _ _,by simp [disturb,h.table]⟩,rfl⟩

theorem fsCall_idle (h : env.OnlyAdds) (w : TreeWorld) :
    Triple (Idle w) (fsCall env) (fun _ => Idle w) fun e w' => Idle w w' ∧ env.Fails e :=
  fsCall_triple fun u hu => hu.trans (h.idle u)

theorem resolveDir_idle (h : env.OnlyAdds) (w : TreeWorld) (fd : Fd Place) (path : Text) :
    Triple (Idle w) (resolveDir env fd path)
      (fun q w' => Idle w w' ∧ openBeneath (fdView w'.world.table) w'.tree fd path = .ok q)
      fun e w' => Idle w w' ∧ (env.Fails e ∨ NotOpened fd path e w') :=
  resolveDir_triple (fsCall_idle h w) fd path

/-- A path that leads somewhere is resolved to that, or the outside world lets it fail. -/
theorem resolveDir_again (h : env.OnlyAdds) (w : TreeWorld) {fd q : Fd Place} {path : Text}
    (hpath : isCleanRelative path = true)
    (hq : (fdView w.world.table).walk w.tree fd (path.splitOn '/') = .ok q) :
    Triple (Idle w) (resolveDir env fd path) (fun q' w' => Idle w w' ∧ q' = q)
      fun e w' => Idle w w' ∧ env.Fails e := by
  have hopen : ∀ u, Idle w u → openBeneath (fdView u.world.table) u.tree fd path = .ok q := by
    intro u hu
    rw [openBeneath_clean hpath]
    exact hu.walk hq
  have hn : nul ∉ path := by
    simp only [isCleanRelative,Bool.and_eq_true,Bool.not_eq_true'] at hpath
    simpa using hpath.1.2
  refine (resolveDir_idle h w fd path).mono (fun _ hs => hs) ?_ ?_
  · rintro q' u ⟨hu,ho⟩
    rw [hopen u hu] at ho
    cases ho
    exact ⟨hu,rfl⟩
  · rintro e u ⟨hu,hf | ⟨hn',-⟩ | ⟨f,ho,-⟩⟩
    · exact ⟨hu,hf⟩
    · exact absurd hn' hn
    · rw [hopen u hu] at ho
      cases ho

theorem fsCall_grown (h : env.OnlyAdds) (w : TreeWorld) :
    Triple (Grown w) (fsCall env) (fun _ => Grown w) fun e u => Grown w u ∧ env.Fails e :=
  fsCall_triple fun u hu => hu.trans (h.idle u).toGrown

theorem ensureOne_grown (h : env.OnlyAdds) (w : TreeWorld) (parent : Fd Place) (c : Text) :
    Triple (Grown w) (ensureOne env parent c)
      (fun fd u => Grown w u ∧ isPlain c = true ∧
        (fdView u.world.table).child u.tree parent c = .ok fd) fun _ => Grown w := by
  refine ensureOne_triple (fsCall_grown h w) parent c fun k u a _ hu ha => ?_
  obtain ⟨hdir,hnot,hfree,rfl⟩ := Tree.mkdir_ok_iff.mp ha
  exact hu.trans ⟨.addDir hdir hnot hfree,rfl⟩

/-- The components walked so far and those to come lead to what is returned. -/
theorem ensureRest_grown (h : env.OnlyAdds) (root : Fd Place) (done rest : List Text)
    (current : Fd Place) (w : TreeWorld)
    (hw : (fdView w.world.table).walk w.tree root done = .ok current) :
    Triple (Eq w) (ensureRest env current rest)
      (fun fd u => Grown w u ∧ (∀ c ∈ rest, isPlain c = true) ∧
        (fdView u.world.table).walk u.tree root (done++rest) = .ok fd) fun _ _ => True := by
  induction rest generalizing done current w with
  | nil => exact .pure fun u hu => hu ▸ ⟨.refl w,by simp,by simpa using hw⟩
  | cons c rest ih =>
    rintro _ rfl
    refine (Triple.bind ((ensureOne_grown h w current c).mono (fun _ hs => hs) (fun _ _ hs => hs)
      fun _ _ _ => trivial) fun next => ?_) w (.refl w)
    rintro u ⟨hu,hplain,hchild⟩
    have hnext : (fdView u.world.table).walk u.tree root (done++[c]) = .ok next := by
      rw [View.walk_concat,hu.walk hw]
      exact hchild
    refine ((ih (done++[c]) next u hnext).mono (fun _ hs => hs) ?_ fun _ _ hs => hs) u rfl
    rintro fd v ⟨hv,hrest,hwalk⟩
    refine ⟨hu.trans hv,?_,by simpa using hwalk⟩
    intro c' hc'
    rcases List.mem_cons.mp hc' with rfl | hc'
    · exact hplain
    · exact hrest c' hc'

theorem ensureDirs_grown (h : env.OnlyAdds) (root : Fd Place) (components : List Text)
    (w : TreeWorld) :
    Triple (Eq w) (ensureDirs env root components)
      (fun fd u => Grown w u ∧ components ≠ [] ∧ (∀ c ∈ components, isPlain c = true) ∧
        (fdView u.world.table).walk u.tree root components = .ok fd) fun _ _ => True := by
  cases components with
  | nil => exact .fail fun _ _ => trivial
  | cons c rest =>
    -- the first component is one of the loop
    refine (ensureRest_grown h root [] (c::rest) root w rfl).mono (fun _ hs => hs) ?_
      fun _ _ hs => hs
    rintro fd u ⟨hu,hplain,hwalk⟩
    exact ⟨hu,by simp,hplain,hwalk⟩

/-- A component that is there is left as it is. -/
theorem ensureOne_again (h : env.OnlyAdds) (w : TreeWorld) {parent fd : Fd Place} {c : Text}
    (hplain : isPlain c = true)
    (hc : (fdView w.world.table).child w.tree parent c = .ok fd) :
    Triple (Idle w) (ensureOne env parent c) (fun fd' u => Idle w u ∧ fd' = fd)
      fun e u => Idle w u ∧ env.Fails e := by
  obtain ⟨h0,h1,h2,hslash,hn⟩ := (isPlain_iff c).mp hplain
  have hexist : ∀ u k, Idle w u →
      u.tree.mkdir parent.place.2 c (env.fresh k) = .error .exist := by
    intro u k hu
    obtain ⟨i,hi,-⟩ := View.child_ok_iff.mp (hu.child hc)
    obtain ⟨hdir,hentry,-⟩ := Tree.lookup_ok_iff.mp hi
    have hmem : c ∈ u.tree.entries parent.place.2 := by
      rw [Std.ExtTreeMap.mem_iff_isSome_getElem?]
      exact hentry ▸ rfl
    have hdir : u.tree.kind parent.place.2 = .directory := hdir
    simp [Tree.mkdir,hdir,hmem]
  have hresolve : Triple (Idle w) (resolveDir env parent c) (fun fd' u => Idle w u ∧ fd' = fd)
      fun e u => Idle w u ∧ env.Fails e := by
    have hsplit : c.splitOn '/' = [c] := List.splitOn_eq_singleton hslash
    refine resolveDir_again h w (isCleanRelative_iff.mpr ?_) ?_
    · rw [hsplit]
      simpa using hplain
    · rw [hsplit]
      simpa [View.walk] using hc
  unfold ensureOne
  rw [if_neg (by simp [h0,h1,h2,hslash])]
  refine .bind (.attempt (mkdirat_triple (fsCall_idle h w) parent c ?_)) fun made => ?_
  · intro k u a _ hu ha
    rw [hexist u k hu] at ha
    cases ha
  · split
    · exact fun u hu => hresolve u (hu.1 () rfl).1
    · exact fun u hu => hresolve u (hu.2 _ rfl).1
    · rename_i e he
      refine .fail fun u hu => ?_
      obtain ⟨hidle,⟨hn',-⟩ | ⟨-,hf | ⟨k,f,hf,rfl⟩⟩⟩ := hu.2 e rfl
      · exact absurd hn' hn
      · exact ⟨hidle,hf⟩
      · rw [hexist u k hidle] at hf
        cases hf
        exact absurd rfl he

theorem ensureRest_again (h : env.OnlyAdds) {fd : Fd Place} (rest : List Text)
    (current : Fd Place) (w : TreeWorld) (hplain : ∀ c ∈ rest, isPlain c = true)
    (hw : (fdView w.world.table).walk w.tree current rest = .ok fd) :
    Triple (Eq w) (ensureRest env current rest) (fun fd' u => Idle w u ∧ fd' = fd)
      fun e u => Idle w u ∧ env.Fails e := by
  induction rest generalizing current w with
  | nil =>
    cases hw
    exact .pure fun u hu => hu ▸ ⟨.refl w,rfl⟩
  | cons c rest ih =>
    rintro _ rfl
    simp only [View.walk,List.foldlM_cons] at hw
    cases hc : (fdView w.world.table).child w.tree current c with
    | error e => rw [hc] at hw; cases hw
    | ok next =>
      rw [hc] at hw
      refine (Triple.bind (ensureOne_again h w (hplain c (by simp)) hc) fun next' => ?_) w (.refl w)
      rintro u ⟨hu,rfl⟩
      have hrest := ih next' u (fun c' hc' => hplain c' (by simp [hc'])) (hu.walk hw)
      exact (hrest.mono (fun _ hs => hs) (fun fd' v hv => ⟨hu.trans hv.1,hv.2⟩)
        fun e v hv => ⟨hu.trans hv.1,hv.2⟩) u rfl

end

/-- Directories that were made last.  Where other processes take nothing away, making them succeeds
only with every component a plain name and the path leading to what is returned; and from then on,
whatever is added, resolving the path leads there too, and making the directories again leads there
and changes nothing, unless the outside world lets a call fail. -/
theorem ensureDirs_lasting {env env' : TreeEnv} (h : env.OnlyAdds) (h' : env'.OnlyAdds)
    {root fd : Fd Place} {components : List Text} {w u : TreeWorld}
    (hmade : (ensureDirs env root components).run w = (.ok fd,u)) :
    w.tree.Extends u.tree ∧ u.world = w.world ∧ isCleanRelative (List.intercalate ['/'] components) ∧
      (∀ r v, (resolveDir env' root (List.intercalate ['/'] components)).run u = (r,v) →
        v.changes = u.changes ∧ (r = .ok fd ∨ ∃ e, env'.Fails e ∧ r = .error e)) ∧
      ∀ r v, (ensureDirs env' root components).run u = (r,v) →
        v.changes = u.changes ∧ (r = .ok fd ∨ ∃ e, env'.Fails e ∧ r = .error e) := by
  obtain ⟨hu,hne,hplain,hwalk⟩ := (ensureDirs_grown h root components w w rfl).1 fd u hmade
  have hsplit : (List.intercalate ['/'] components).splitOn '/' = components :=
    List.splitOn_intercalate '/' (fun c hc => ((isPlain_iff c).mp (hplain c hc)).2.2.2.1) hne
  have hclean : isCleanRelative (List.intercalate ['/'] components) = true := by
    rw [isCleanRelative_iff,hsplit]
    exact hplain
  have hends : ∀ {x : FsProg (Fd Place)}, Triple (Eq u) x (fun fd' v => Idle u v ∧ fd' = fd)
      (fun e v => Idle u v ∧ env'.Fails e) → ∀ r v, x.run u = (r,v) →
      v.changes = u.changes ∧ (r = .ok fd ∨ ∃ e, env'.Fails e ∧ r = .error e) := by
    intro x hx r v hr
    cases r with
    | ok fd' =>
      obtain ⟨hv,rfl⟩ := (hx u rfl).1 fd' v hr
      exact ⟨hv.changes,.inl rfl⟩
    | error e =>
      obtain ⟨hv,he⟩ := (hx u rfl).2 e v hr
      exact ⟨hv.changes,.inr ⟨e,he,rfl⟩⟩
  refine ⟨hu.tree,hu.world,hclean,hends ?_,hends ?_⟩
  · refine (resolveDir_again h' u hclean ?_).mono (fun v hv => hv ▸ .refl u) (fun _ _ hs => hs)
      fun _ _ hs => hs
    rw [hsplit]
    exact hwalk
  · cases components with
    | nil => exact absurd rfl hne
    | cons c rest => exact ensureRest_again h' (c::rest) root u hplain hwalk

/-! The directories of a target, made in an empty root. -/
namespace SampleDirs

def inode (n : ℕ) : DevIno := ⟨8,1,n⟩

/-- Only the root is in use. -/
def tree : FsTree := ⟨fun i => if i = inode 1 then .directory else .free,fun _ => ∅⟩

def world : TreeWorld := ⟨tree,⟨fun _ => [],.empty,.empty,[]⟩,0,[]⟩

def root : Fd Place := ⟨(0,inode 1),none⟩

/-- Nothing fails, and nobody else does anything. -/
def quiet : TreeEnv where
  base := {
    before := fun _ => id
    fault := fun _ => none
    dir := fun _ => (0,inode 1)
    source := inode 1
    mntId := 7
    mntIdUnique := none
    inherited := ⟨false,false,false,false,false⟩
    now := 0}
  root := fun _ => root
  others := fun _ => id
  fault := fun _ => none
  fresh := fun k => inode (k+2)
  strerror := fun _ => ""

theorem quiet_onlyAdds : quiet.OnlyAdds := ⟨fun _ _ _ => .refl _,fun _ _ _ => rfl⟩

def components : List Text := ["a".toList,"b".toList]

def made : Except FsError (Fd Place) × TreeWorld := (ensureDirs quiet root components).run world

def leaf : Fd Place := made.1.toOption.get (by decide +kernel)

theorem made_eq : (ensureDirs quiet root components).run world = (.ok leaf,made.2) :=
  Prod.ext (Program.ok_of_toOption (Option.some_get _).symm) rfl

/-- Two directories were made, and making them again makes none. -/
theorem ensureDirs_lasting_run : made.2.changes.length = 2 ∧
    ((ensureDirs quiet root components).run made.2).2.changes = made.2.changes :=
  ⟨by decide +kernel,
    ((ensureDirs_lasting quiet_onlyAdds quiet_onlyAdds made_eq).2.2.2.2 _ _ rfl).1⟩

end SampleDirs
end Byssus
