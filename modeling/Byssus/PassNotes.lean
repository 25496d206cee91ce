import Byssus.ObserveSpec
import Byssus.NoteLog

/-! Where the notes of a pass come from: which directories were read, found lost or found
missing, and which of their entries were rejected. -/
namespace Byssus

variable {H : Type}

/-! ### The notes of a scan -/

namespace ScanEnv

variable (env : ScanEnv H)

/-- The listing of `dir` has the entry `fileName`. -/
def Has (dir : H) (fileName : List UInt8) : Prop :=
  ∃ names failed, env.readDir dir = .ok (names,failed) ∧ fileName ∈ names

/-- Why the entry `fileName` of the directory `dir` at `above` is no group of the set: it is no
directory, or a template fails for it. -/
def Refuses (set : GroupSetConfig) (dir : H) (above : List Name) (fileName : List UInt8)
    (reason : RejectReason) : Prop :=
  classifySetEntry env dir fileName = .error reason ∨
    ∃ n h e, classifySetEntry env dir fileName = .ok (some n) ∧
      set.group (above++[n]) h = .error e ∧ reason = .inaccessible ("template: " ++ e.message)

/-- An entry beneath `dir`, which has `levels` levels beneath it, is rejected. -/
def RefusesBelow (set : GroupSetConfig) (levels : ℕ) (dir : H) (above : List Name) (n : Note) :
    Prop :=
  ∃ rest sub fileName reason, rest.length < levels ∧ env.Walks dir rest sub ∧
    env.Has sub fileName ∧ env.Refuses set sub (above++rest) fileName reason ∧
    n = .setEntryRejected set.name ⟨displayEntry (above++rest) fileName,reason⟩

/-- The note of a scan: an entry is rejected, or a directory cannot be read. -/
def Explains (set : GroupSetConfig) (levels : ℕ) (dir : H) (above : List Name) (n : Note) : Prop :=
  env.RefusesBelow set levels dir above n ∨
    ∃ rest e, env.Unread levels dir rest ∧ n = .membershipUnreadable (.inSet set.name (above++rest)) e

variable {env} {set : GroupSetConfig}

/-- An entry is rejected for one reason only. -/
theorem Refuses.unique {dir : H} {above : List Name} {fileName : List UInt8}
    {reason reason' : RejectReason} (h : env.Refuses set dir above fileName reason)
    (h' : env.Refuses set dir above fileName reason') : reason = reason' := by
  rcases h with h | ⟨n,hl,e,h,hg,rfl⟩
  · rcases h' with h' | ⟨n',hl',e',h',-,-⟩
    · rw [h] at h'
      exact Except.error.inj h'
    · rw [h] at h'
      cases h'
  · rcases h' with h' | ⟨n',hl',e',h',hg',rfl⟩
    · rw [h] at h'
      cases h'
    · rw [h] at h'
      cases h'
      rw [hg] at hg'
      cases hg'
      rfl

/-- What explains a note beneath an entry explains it beneath the directory. -/
theorem Explains.lift {levels : ℕ} {dir sub : H} {above : List Name} {n : Name} {note : Note}
    (h : env.Explains set levels sub (above++[n]) note) (hn : env.Enters dir n sub) :
    env.Explains set (levels+1) dir above note := by
  rcases h with ⟨rest,last,fileName,reason,hlt,hw,hhas,hr,rfl⟩ | ⟨rest,e,hu,rfl⟩
  · refine .inl ⟨n::rest,last,fileName,reason,?_,⟨sub,hn,hw⟩,hhas,?_,?_⟩
    · simpa using hlt
    · simpa using hr
    · simp
  · refine .inr ⟨n::rest,e,.inr ⟨sub,hn,hu⟩,?_⟩
    simp

end ScanEnv

theorem foldl_notes {α : Type} {f : SetScan H → α → SetScan H} {P : Note → Prop} {l : List α}
    (h : ∀ a ∈ l, ∀ scan : SetScan H, ∀ n ∈ (f scan a).notes, n ∈ scan.notes ∨ P n)
    (scan : SetScan H) : ∀ n ∈ (l.foldl f scan).notes, n ∈ scan.notes ∨ P n := by
  induction l generalizing scan with
  | nil => exact fun n hn => .inl hn
  | cons a l ih =>
    intro n hn
    rcases ih (fun b hb => h b (List.mem_cons_of_mem a hb)) (f scan a) n hn with hn | hn
    · exact h a List.mem_cons_self scan n hn
    · exact .inr hn

section
variable {env : ScanEnv H} {set : GroupSetConfig}

/-- What is done with an opened directory adds notes about it, or rejects it as a group. -/
def OpenedNote (env : ScanEnv H) (set : GroupSetConfig) {levels : ℕ} (displayName : Text)
    (path : set.Prefix levels) (opened : H) (n : Note) : Prop :=
  env.Explains set levels opened path.1 n ∨ ∃ h e, set.group path.1 h = .error e ∧
    n = .setEntryRejected set.name ⟨displayName,.inaccessible ("template: " ++ e.message)⟩

theorem scanEntry_notes {levels : ℕ} {dir : H} {above : set.Prefix (levels+1)}
    {descend : Text → set.Prefix levels → H → SetScan H → SetScan H}
    (hd : ∀ displayName path opened scan, ∀ n ∈ (descend displayName path opened scan).notes,
      n ∈ scan.notes ∨ OpenedNote env set displayName path opened n)
    {fileName : List UInt8} (hf : env.Has dir fileName) (scan : SetScan H) :
    ∀ n ∈ (scanEntry env set dir above descend scan fileName).notes,
      n ∈ scan.notes ∨ env.Explains set (levels+1) dir above.1 n := by
  intro n hn
  have hself : ∀ reason, env.Refuses set dir above.1 fileName reason →
      env.Explains set (levels+1) dir above.1
        (.setEntryRejected set.name ⟨displayEntry above.1 fileName,reason⟩) := by
    intro reason hr
    refine .inl ⟨[],dir,fileName,reason,Nat.succ_pos levels,rfl,hf,?_,?_⟩
    · simpa using hr
    · simp
  unfold scanEntry at hn
  by_cases hh : fileName.head? = some dotByte
  · rw [if_pos hh] at hn
    exact .inl hn
  rw [if_neg hh] at hn
  cases hc : classifySetEntry env dir fileName with
  | error reason =>
    simp only [hc,SetScan.note,List.mem_append,List.mem_singleton] at hn
    rcases hn with hn | rfl
    · exact .inl hn
    · exact .inr (hself reason (.inl hc))
  | ok found =>
    cases found with
    | none =>
      simp only [hc] at hn
      exact .inl hn
    | some name =>
      obtain ⟨hname,hstat⟩ := classifySetEntry_some.mp hc
      have hlists : env.Lists dir name fileName := by
        obtain ⟨names,failed,hr,hm⟩ := hf
        exact ⟨hname,names,failed,hr,hm⟩
      simp only [hc] at hn
      cases ho : env.openDir dir fileName with
      | ok opened =>
        simp only [ho] at hn
        rcases hd _ _ _ _ n hn with hn | hn | ⟨h,e,hg,rfl⟩
        · exact .inl hn
        · exact .inr (hn.lift ⟨fileName,hlists,hstat,ho⟩)
        · exact .inr (hself _ (.inr ⟨name,h,e,hc,hg,rfl⟩))
      | error e =>
        cases e with
        | noent =>
          simp only [ho] at hn
          exact .inl hn
        | other code =>
          simp only [ho,SetScan.unreadable,List.mem_append,List.mem_singleton] at hn
          rcases hn with hn | rfl
          · exact .inl hn
          · exact .inr (.inr ⟨[name],_,.inl ⟨rfl,fileName,_,hlists,hstat,ho,by simp⟩,rfl⟩)

theorem scanLevel_failed {levels : ℕ} (dir : H) (above : set.Prefix (levels+1)) (scan : SetScan H) :
    (scanLevel env set (levels+1) dir above scan).2 = env.listingError dir := by
  unfold scanLevel ScanEnv.listingError
  cases env.readDir dir with
  | error e => rfl
  | ok listing => rfl

theorem scanLevel_succ_notes {levels : ℕ}
    (hd : ∀ displayName path opened scan,
      ∀ n ∈ (scanOpened env set levels (scanLevel env set levels) displayName path opened scan).notes,
        n ∈ scan.notes ∨ OpenedNote env set displayName path opened n)
    (dir : H) (above : set.Prefix (levels+1)) (scan : SetScan H) :
    ∀ n ∈ (scanLevel env set (levels+1) dir above scan).1.notes,
      n ∈ scan.notes ∨ env.Explains set (levels+1) dir above.1 n := by
  intro n hn
  unfold scanLevel at hn
  cases hr : env.readDir dir with
  | error e =>
    simp only [hr] at hn
    exact .inl hn
  | ok listing =>
    obtain ⟨names,failed⟩ := listing
    simp only [hr] at hn
    exact foldl_notes (fun f hf scan => scanEntry_notes hd ⟨names,failed,hr,hf⟩ scan) scan n hn

theorem scanOpened_notes (levels : ℕ) (displayName : Text) (path : set.Prefix levels) (opened : H)
    (scan : SetScan H) :
    ∀ n ∈ (scanOpened env set levels (scanLevel env set levels) displayName path opened scan).notes,
      n ∈ scan.notes ∨ OpenedNote env set displayName path opened n := by
  induction levels generalizing displayName opened scan with
  | zero =>
    intro n hn
    unfold scanOpened at hn
    cases hg : set.groupAt path with
    | ok config =>
      simp only [hg] at hn
      exact .inl hn
    | error e =>
      simp only [hg,SetScan.note,List.mem_append,List.mem_singleton] at hn
      rcases hn with hn | rfl
      · exact .inl hn
      · exact .inr (.inr ⟨path.2,e,hg,rfl⟩)
  | succ levels ih =>
    intro n hn
    have hspec := scanLevel_succ_notes (fun d p o s => ih d p o s) opened path scan
    have herr : (scanLevel env set (levels+1) opened path scan).2 = env.listingError opened :=
      scanLevel_failed opened path scan
    cases hout : scanLevel env set (levels+1) opened path scan with
    | mk found failed =>
      rw [hout] at hspec herr
      cases failed with
      | none =>
        simp only [scanOpened,hout] at hn
        exact (hspec n hn).imp_right .inl
      | some e =>
        simp only [scanOpened,hout,SetScan.unreadable,List.mem_append,List.mem_singleton] at hn
        rcases hn with hn | rfl
        · exact (hspec n hn).imp_right .inl
        · have hfails : env.ListingFails opened := by simp [ScanEnv.ListingFails,← herr]
          exact .inr (.inl (.inr ⟨[],env.strerror e,hfails,by simp⟩))

/-- A directory that is reported unavailable has a note. -/
def SetScan.Reported (scan : SetScan H) : Prop :=
  ∀ id ∈ scan.unavailable, ∃ e, .membershipUnreadable id e ∈ scan.notes

theorem SetScan.Reported.note {scan : SetScan H} (h : scan.Reported) (n : Note) :
    (scan.note n).Reported := by
  intro id hid
  obtain ⟨e,he⟩ := h id hid
  exact ⟨e,List.mem_append_left _ he⟩

theorem SetScan.Reported.unreadable {scan : SetScan H} (h : scan.Reported) (id : GroupId)
    (e : Errno) : (scan.unreadable env id e).Reported := by
  intro id' hid
  rcases List.mem_append.mp hid with hid | hid
  · obtain ⟨e',he⟩ := h id' hid
    exact ⟨e',List.mem_append_left _ he⟩
  · rw [List.mem_singleton.mp hid]
    exact ⟨env.strerror e,List.mem_append_right _ (List.mem_singleton_self _)⟩

theorem scanEntry_reported {levels : ℕ} {dir : H} {above : set.Prefix (levels+1)}
    {descend : Text → set.Prefix levels → H → SetScan H → SetScan H}
    (hd : ∀ displayName path opened scan, scan.Reported →
      (descend displayName path opened scan).Reported)
    {scan : SetScan H} (h : scan.Reported) (fileName : List UInt8) :
    (scanEntry env set dir above descend scan fileName).Reported := by
  unfold scanEntry
  split
  · exact h
  · split
    · exact h.note _
    · exact h
    · split
      · exact h
      · exact h.unreadable _ _
      · exact hd _ _ _ _ h

theorem scanLevel_reported {levels : ℕ}
    (hd : ∀ displayName path opened scan, scan.Reported →
      (scanOpened env set levels (scanLevel env set levels) displayName path opened scan).Reported)
    (dir : H) (above : set.Prefix (levels+1)) {scan : SetScan H} (h : scan.Reported) :
    (scanLevel env set (levels+1) dir above scan).1.Reported := by
  unfold scanLevel
  split
  · exact h
  · exact Lists.foldl_induction (P := fun _ (scan : SetScan H) => scan.Reported) h
      (fun _ fileName scan hs => scanEntry_reported hd hs fileName) _

theorem scanOpened_reported (levels : ℕ) (displayName : Text) (path : set.Prefix levels) (opened : H)
    {scan : SetScan H} (h : scan.Reported) :
    (scanOpened env set levels (scanLevel env set levels) displayName path opened scan).Reported := by
  induction levels generalizing displayName opened scan with
  | zero =>
    cases hg : set.groupAt path with
    | ok config =>
      simp only [scanOpened,hg]
      exact h
    | error e =>
      simp only [scanOpened,hg]
      exact h.note _
  | succ levels ih =>
    have hscan := scanLevel_reported (fun d p o _ hs => ih d p o hs) opened path h
    cases hout : scanLevel env set (levels+1) opened path scan with
    | mk found failed =>
      rw [hout] at hscan
      cases failed with
      | none =>
        simp only [scanOpened,hout]
        exact hscan
      | some e =>
        simp only [scanOpened,hout]
        exact hscan.unreadable _ _

/-- The notes of a set that is not skipped. -/
def setNotes (env : ScanEnv H) (set : SetRuntime H) : List Note :=
  match discoverSet env set with
  | .ok scan => scan.notes
  | .error n => [n]

theorem setNotes_cases {set : SetRuntime H} {n : Note} (h : n ∈ setNotes env set) :
    (env.Scannable set ∧ env.Explains set.config set.config.depth set.rootDir [] n) ∨
      (¬env.Scannable set ∧ (n = .setRootDeleted set.config.name ∨
        ∃ e, n = .setRootUnreadable set.config.name e)) := by
  unfold setNotes at h
  cases hd : discoverSet env set with
  | error note =>
    simp only [hd,List.mem_singleton] at h
    subst h
    refine .inr ⟨discoverSet_error hd,?_⟩
    unfold discoverSet at hd
    split at hd
    · exact .inl (Except.error.inj hd).symm
    · split at hd
      · cases hd
      · exact .inr ⟨_,(Except.error.inj hd).symm⟩
  | ok scan =>
    refine .inl ⟨(discoverSet_ok hd).1,?_⟩
    simp only [hd] at h
    unfold discoverSet at hd
    split at hd
    · cases hd
    · split at hd
      · rename_i scan' hs
        cases hd
        obtain ⟨k,hk⟩ := Nat.exists_eq_succ_of_ne_zero set.config.depth_pos.ne'
        have hnotes : ∀ (levels : ℕ) (above : set.config.Prefix levels), levels ≠ 0 → above.1 = [] →
            ∀ n ∈ (scanLevel env set.config levels set.rootDir above .empty).1.notes,
              env.Explains set.config levels set.rootDir [] n := by
          intro levels above hl ha n hn
          obtain ⟨k,rfl⟩ := Nat.exists_eq_succ_of_ne_zero hl
          have := scanLevel_succ_notes (fun d p o s => scanOpened_notes k d p o s) set.rootDir above
            .empty n hn
          rw [ha] at this
          exact this.resolve_left (by simp [SetScan.empty])
        exact hnotes _ _ set.config.depth_pos.ne' rfl n (by rw [hs]; exact h)
      · cases hd

/-- A directory beneath the root that cannot be read has a note. -/
theorem setNotes_of_unread {set : SetRuntime H} (hs : env.Scannable set) {path : List Name}
    (hne : path ≠ []) (hu : env.Unread set.config.depth set.rootDir path) :
    ∃ e, .membershipUnreadable (.inSet set.config.name path) e ∈ setNotes env set := by
  have hroot : ∀ (levels : ℕ) (above : set.config.Prefix levels),
      (scanLevel env set.config levels set.rootDir above .empty).1.Reported := by
    intro levels above
    cases levels with
    | zero => exact fun id hid => absurd hid (List.not_mem_nil)
    | succ levels =>
      exact scanLevel_reported (fun d p o _ h => scanOpened_reported levels d p o h) _ _
        (fun id hid => absurd hid (List.not_mem_nil))
  cases hd : discoverSet env set with
  | error n => exact absurd hs (discoverSet_error hd)
  | ok scan =>
    have hun := ((discoverSet_ok hd).2.2.1 (.inSet set.config.name path)).mpr ⟨path,hne,hu,rfl⟩
    have hreported : scan.Reported := by
      unfold discoverSet at hd
      split at hd
      · cases hd
      · split at hd
        · rename_i scan' hout
          have hr := hroot set.config.depth set.config.rootPrefix
          rw [hout] at hr
          rwa [← Except.ok.inj hd]
        · cases hd
    simp only [setNotes,hd]
    exact hreported _ hun

/-- A set that cannot be scanned has a note under its label. -/
theorem setNotes_of_not_scannable {set : SetRuntime H} (h : ¬env.Scannable set) :
    ∃ n ∈ setNotes env set, (noteIdentity n).1.1 = setLabel set.config.name.text := by
  cases hd : discoverSet env set with
  | ok scan => exact absurd (discoverSet_ok hd).1 h
  | error note =>
    have hn : note ∈ setNotes env set := by simp [setNotes,hd]
    refine ⟨note,hn,?_⟩
    rcases setNotes_cases hn with ⟨hs,-⟩ | ⟨-,rfl | ⟨e,rfl⟩⟩
    · exact absurd hs h
    · rfl
    · rfl

theorem mem_discovery_notes {runtime : Runtime H} {skip : Finset Name} {n : Note} :
    n ∈ (runtime.discover env skip).2.notes ↔
      ∃ s set, runtime.sets[s]? = some set ∧ s ∉ skip ∧ n ∈ setNotes env set := by
  have hstep : ∀ (acc : Runtime H × Discovery) (entry : Name × SetRuntime H),
      n ∈ (Runtime.discoverStep env skip acc entry).2.notes ↔
        n ∈ acc.2.notes ∨ (entry.1 ∉ skip ∧ n ∈ setNotes env entry.2) := by
    intro acc entry
    by_cases hskip : entry.1 ∈ skip
    · rw [discoverStep_skip hskip]
      simp [hskip]
    · cases hd : discoverSet env entry.2 with
      | ok scan =>
        rw [discoverStep_ok hskip hd]
        simp [hskip,setNotes,hd]
      | error note =>
        rw [discoverStep_error hskip hd]
        simp [hskip,setNotes,hd]
  have hall := Lists.foldl_or_iff (Q := fun acc : Runtime H × Discovery => n ∈ acc.2.notes) hstep
    runtime.sets.toList (runtime.staticOnly,⟨[],∅,∅,∅⟩)
  refine hall.trans ?_
  simp only [List.not_mem_nil,false_or,Prod.exists,Std.ExtTreeMap.mem_toList_iff_getElem?_eq_some]

end

/-! ### The notes of the groups -/

/-- The note of a member whose templates fail. -/
def memberNote (id : GroupId) (config : GroupConfig) (n : Name) : Option Note :=
  match desiredMount id config n with
  | .ok _ => none
  | .error note => some note

theorem memberNote_eq {id : GroupId} {config : GroupConfig} {n : Name} {note : Note}
    (h : memberNote id config n = some note) : ∃ field e,
      (field = "source" ∨ field = "target") ∧ note = .interpolationFailed id n field e := by
  unfold memberNote desiredMount interpolateFor at h
  cases hs : config.source.interpolate n with
  | error e =>
    simp only [hs,Except.mapError] at h
    exact ⟨_,e,.inl rfl,(Option.some.inj h).symm⟩
  | ok s =>
    cases ht : config.target.interpolate n with
    | error e =>
      simp only [hs,ht,Except.mapError] at h
      exact ⟨_,e,.inr rfl,(Option.some.inj h).symm⟩
    | ok t =>
      simp only [hs,ht,Except.mapError] at h
      cases h

theorem foldl_addMember_notes (id : GroupId) (config : GroupConfig) (names : List Name)
    (out : Observed) :
    (names.foldl (Observed.addMember id config) out).notes =
        out.notes++names.filterMap (memberNote id config) ∧
      (names.foldl (Observed.addMember id config) out).members = out.members := by
  induction names generalizing out with
  | nil => simp
  | cons n names ih =>
    obtain ⟨hn,hm⟩ := ih (out.addMember id config n)
    rw [List.foldl_cons,hn,hm,List.filterMap_cons]
    cases hd : desiredMount id config n with
    | ok d => simp [Observed.addMember,memberNote,hd]
    | error note => simp [Observed.addMember,memberNote,hd]

theorem addMembership_notes (id : GroupId) (config : GroupConfig) (out : Observed) (m : Membership) :
    (out.addMembership id config m).notes =
        out.notes++(m.rejected.map (.rejected id)++m.members.toList.filterMap (memberNote id config)) ∧
      ∀ id', id' ∈ (out.addMembership id config m).members ↔ id' ∈ out.members ∨ id' = id := by
  have hignored : ∀ o : Observed, o = (if m.ignored = [] then out
      else {out with ignored := out.ignored.insert id m.ignored}) →
      o.notes = out.notes ∧ o.members = out.members := by
    rintro o rfl
    split <;> exact ⟨rfl,rfl⟩
  obtain ⟨hnotes,hmembers⟩ := hignored _ rfl
  simp only [Observed.addMembership,foldl_addMember_notes,hnotes,hmembers,List.append_assoc,
    true_and]
  intro id'
  rw [Std.ExtTreeMap.mem_insert,Std.LawfulEqCmp.compare_eq_iff_eq,or_comm,eq_comm]

section
variable {env : PassEnv H} {degraded : Finset GroupId}

/-- The notes of a group. -/
def groupNotes (env : PassEnv H) (degraded : Finset GroupId) (entry : GroupId × GroupRuntime H) :
    List Note :=
  if entry.1 ∈ degraded then []
  else if (env.isDeleted entry.2.membershipDir).toOption.getD false then
    [.membershipDeleted entry.1]
  else match scanMembership env.toScanEnv entry.2.membershipDir with
    | .error e => [.membershipUnreadable entry.1 (env.strerror e)]
    | .ok m => m.rejected.map (.rejected entry.1)++
        m.members.toList.filterMap (memberNote entry.1 entry.2.config)

theorem addGroup_notes (out : Observed) (entry : GroupId × GroupRuntime H) :
    (out.addGroup env degraded entry).notes = out.notes++groupNotes env degraded entry ∧
      ∀ id, id ∈ (out.addGroup env degraded entry).members ↔ id ∈ out.members ∨
        (id = entry.1 ∧ id ∉ degraded ∧ ¬env.Unobservable entry.2) := by
  unfold Observed.addGroup groupNotes PassEnv.Unobservable
  by_cases hdeg : entry.1 ∈ degraded
  · simp only [hdeg,if_true,List.append_nil,true_and]
    intro id
    have hno : id = entry.1 → id ∈ degraded := fun h => h ▸ hdeg
    tauto
  · by_cases hdel : (env.isDeleted entry.2.membershipDir).toOption.getD false = true
    · simp [hdeg,hdel,Observed.freeze]
    · cases hs : scanMembership env.toScanEnv entry.2.membershipDir with
      | error e =>
        have hf := (scanMembership_error_iff entry.2.membershipDir).mp ⟨e,hs⟩
        simp [hdeg,hdel,hs,Observed.freeze,hf]
      | ok m =>
        have hf : ¬env.ListingFails entry.2.membershipDir := by
          rw [← scanMembership_error_iff]
          simp [hs]
        obtain ⟨hnotes,hmembers⟩ := addMembership_notes entry.1 entry.2.config out m
        simp only [hdeg,hdel,hs,hf,Bool.false_eq_true,if_false,hnotes,hmembers,or_self,
          not_false_eq_true,and_true,true_and]
        intro id
        have hno : id = entry.1 → id ∉ degraded := fun h => h ▸ hdeg
        tauto

theorem observe_notes (rt : Runtime H) (state : State) :
    (∀ n, n ∈ (observe env rt state degraded).notes ↔
        ∃ id g, rt.groups[id]? = some g ∧ n ∈ groupNotes env degraded (id,g)) ∧
      ∀ id, id ∈ (observe env rt state degraded).members ↔
        id ∉ degraded ∧ ∃ g, rt.groups[id]? = some g ∧ ¬env.Unobservable g := by
  constructor
  · intro n
    have hall := Lists.foldl_or_iff (Q := fun out : Observed => n ∈ out.notes)
      (P := fun entry => n ∈ groupNotes env degraded entry)
      (fun out entry => by rw [(addGroup_notes out entry).1,List.mem_append])
      rt.groups.toList ⟨[],⟨∅,∅⟩,degraded,∅,∅,∅,[]⟩
    refine hall.trans ?_
    simp only [List.not_mem_nil,false_or,Prod.exists,Std.ExtTreeMap.mem_toList_iff_getElem?_eq_some]
  · intro id
    have hall := Lists.foldl_or_iff (f := Observed.addGroup env degraded)
      (Q := fun out : Observed => id ∈ out.members) (fun out entry => (addGroup_notes out entry).2 id)
      rt.groups.toList ⟨[],⟨∅,∅⟩,degraded,∅,∅,∅,[]⟩
    refine hall.trans ?_
    simp only [Std.ExtTreeMap.not_mem_empty,false_or,Prod.exists,
      Std.ExtTreeMap.mem_toList_iff_getElem?_eq_some]
    constructor
    · rintro ⟨_,g,hg,rfl,hdeg,hu⟩
      exact ⟨hdeg,g,hg,hu⟩
    · rintro ⟨hdeg,g,hg,hu⟩
      exact ⟨id,g,hg,rfl,hdeg,hu⟩

end
end Byssus
