import Byssus.Authority
import Byssus.PassNotes

/-! The entries that passes reject, and what a pass finds out about the directories they are in. -/
namespace Byssus

/-! ### Displayed names -/

/-- How many characters spell the byte that a displayed name begins with. -/
def escapeLength (s : Text) : ℕ :=
  if s.head? = some (Char.ofNat 92) then
    if s.tail.head? = some 'x' then 4 else 2
  else 1

/-- The byte that the characters spell. -/
def unescape : Text → ℕ
  | [c] => c.toNat
  | [_,'t'] => 9
  | [_,'r'] => 13
  | [_,'n'] => 10
  | [_,c] => c.toNat
  | [_,_,high,low] =>
    let digit := fun c : Char => if c.isDigit then c.toNat-48 else c.toNat-87
    16*digit high+digit low
  | _ => 0

theorem escapeByte_spec (b : UInt8) :
    (escapeByte b).length = escapeLength (escapeByte b) ∧ unescape (escapeByte b) = b.toNat ∧
      ('/' ∈ escapeByte b → b = 47) := by
  have h : ∀ i : Fin 256, (escapeByte (UInt8.ofNat i)).length =
      escapeLength (escapeByte (UInt8.ofNat i)) ∧ unescape (escapeByte (UInt8.ofNat i)) = i ∧
        ('/' ∈ escapeByte (UInt8.ofNat i) → UInt8.ofNat i = 47) := by
    decide +kernel
  have hb := h ⟨b.toNat,b.toNat_lt⟩
  simpa using hb

theorem escapeByte_ne_nil (b : UInt8) : escapeByte b ≠ [] := by
  intro h
  have hlen := (escapeByte_spec b).1
  simp [h,escapeLength] at hlen

/-- The first two characters tell the length. -/
theorem escapeLength_append {s t : Text} (h : s.length = escapeLength s) :
    escapeLength (s++t) = escapeLength s := by
  match s with
  | [] => simp [escapeLength] at h
  | [c] =>
    by_cases hc : c = Char.ofNat 92
    · subst hc
      simp [escapeLength] at h
    · simp [escapeLength,hc]
  | c::d::s => simp [escapeLength]

/-- File names that are displayed alike are the same. -/
theorem displayBytes_injective : Function.Injective displayBytes := by
  intro xs
  induction xs with
  | nil =>
    intro ys h
    cases ys with
    | nil => rfl
    | cons b ys => exact absurd (List.append_eq_nil_iff.mp h.symm).1 (escapeByte_ne_nil b)
  | cons a xs ih =>
    intro ys h
    cases ys with
    | nil => exact absurd (List.append_eq_nil_iff.mp h).1 (escapeByte_ne_nil a)
    | cons b ys =>
      have h : escapeByte a++displayBytes xs = escapeByte b++displayBytes ys := h
      obtain ⟨hla,hua,-⟩ := escapeByte_spec a
      obtain ⟨hlb,hub,-⟩ := escapeByte_spec b
      have hlen : (escapeByte a).length = (escapeByte b).length := by
        rw [hla,hlb,← escapeLength_append hla,h,escapeLength_append hlb]
      obtain ⟨hab,hrest⟩ := List.append_inj h hlen
      have hbyte : a = b := by rw [← UInt8.toNat_inj,← hua,← hub,hab]
      rw [hbyte,ih hrest]

/-- A name is displayed as it is. -/
theorem Name.displayBytes_bytes (n : Name) : displayBytes n.bytes = n.text := by
  have hchar : ∀ i : Fin 128, isAllowedChar (Char.ofNat i) = true →
      escapeByte (UInt8.ofNat i) = [Char.ofNat i] := by
    decide +kernel
  have hall : ∀ s : Text, (∀ c ∈ s, isAllowedChar c = true) →
      displayBytes (s.flatMap String.utf8EncodeChar) = s := by
    intro s
    induction s with
    | nil => exact fun _ => rfl
    | cons c s ih =>
      intro hs
      have hc := hs c List.mem_cons_self
      have hle := toNat_le_of_allowed hc
      have henc : String.utf8EncodeChar c = [UInt8.ofNat c.toNat] := if_pos hle
      have hone := hchar ⟨c.toNat,by omega⟩ (by rwa [Char.ofNat_toNat])
      rw [Char.ofNat_toNat] at hone
      have hrest := ih fun d hd => hs d (List.mem_cons_of_mem c hd)
      rw [List.flatMap_cons,henc,List.singleton_append,displayBytes,List.flatMap_cons]
      exact congr (congrArg HAppend.hAppend hone) hrest
  exact hall n.text fun _ hc => n.allowed hc

/-- A file name: not empty, and without a slash. -/
structure FileName where
  bytes : List UInt8
  ne_nil : bytes ≠ []
  no_slash : 47 ∉ bytes

namespace FileName

theorem bytes_injective : Function.Injective bytes := by
  rintro ⟨a,ha,ha'⟩ ⟨b,hb,hb'⟩ h
  simpa using h

def display (f : FileName) : Text := displayBytes f.bytes

theorem display_injective : Function.Injective display :=
  fun _ _ h => bytes_injective (displayBytes_injective h)

theorem display_ne_nil (f : FileName) : f.display ≠ [] := by
  intro h
  exact f.ne_nil (displayBytes_injective (h : displayBytes f.bytes = displayBytes []))

theorem slash_notMem_display (f : FileName) : '/' ∉ f.display := by
  intro h
  obtain ⟨b,hb,hs⟩ := List.mem_flatMap.mp h
  have hslash := (escapeByte_spec b).2.2 hs
  rw [hslash] at hb
  exact f.no_slash hb

theorem displayEntry_splitOn (above : List Name) (f : FileName) :
    (displayEntry above f.bytes).splitOn '/' = above.map Name.text++[f.display] := by
  apply List.splitOn_intercalate '/' _ (by simp)
  intro t ht
  rcases List.mem_append.mp ht with ht | ht
  · obtain ⟨n,-,rfl⟩ := List.mem_map.mp ht
    exact n.slash_notMem
  · rw [List.mem_singleton.mp ht]
    exact f.slash_notMem_display

/-- The displayed path of an entry determines the level names and the file name. -/
theorem displayEntry_inj {above above' : List Name} {f f' : FileName}
    (h : displayEntry above f.bytes = displayEntry above' f'.bytes) : above = above' ∧ f = f' := by
  have hs := congrArg (List.splitOn '/') h
  rw [displayEntry_splitOn,displayEntry_splitOn] at hs
  obtain ⟨ha,hf⟩ := List.append_inj' hs rfl
  exact ⟨List.map_injective_iff.mpr Name.text_injective ha,
    display_injective (List.singleton_injective hf)⟩

theorem displayEntry_ne_nil (above : List Name) (f : FileName) :
    displayEntry above f.bytes ≠ [] := by
  intro h
  have hs := congrArg (List.splitOn '/') h
  rw [displayEntry_splitOn,List.splitOn_nil,← List.nil_append [[]]] at hs
  exact f.display_ne_nil (List.singleton_injective (List.append_inj' hs rfl).2)

end FileName

/-! ### Labels -/

theorem setLabel_injective : Function.Injective fun s : Name => setLabel s.text := by
  intro s s' h
  exact Name.text_injective (List.append_cancel_right h)

/-- No group is displayed as a set is labelled. -/
theorem GroupId.display_ne_setLabel (g : GroupId) (s : Name) : g.display ≠ setLabel s.text := by
  intro h
  have hstar : '*' ∈ g.display := by
    rw [h]
    simp [setLabel]
  have hname : ∀ n : Name, '*' ∉ n.text := by
    intro n hn
    have ha := n.allowed hn
    revert ha
    decide
  unfold GroupId.display at hstar
  rcases List.mem_append.mp hstar with hs | hs
  · cases hset : g.set with
    | none => simp [hset] at hs
    | some t =>
      simp only [hset,List.mem_append,List.mem_singleton] at hs
      rcases hs with hs | hs
      · exact hname t hs
      · exact absurd hs (by decide)
  · rcases Lists.mem_intercalate hs with hs | ⟨l,hl,hs⟩
    · exact absurd hs (by decide)
    · obtain ⟨n,-,rfl⟩ := List.mem_map.mp hl
      exact hname n hs

/-! ### Reasons -/

/-- What the text of a reason begins with. -/
def RejectReason.lead : RejectReason → String
  | .invalidName _ => "name fails allowlist: "
  | .notRegularFile _ => "not a regular file ("
  | .notDirectory _ => "not a directory ("
  | .notEmpty _ => "file is not empty ("
  | .inaccessible _ => "cannot inspect entry: "

theorem RejectReason.message_lead (r : RejectReason) : ∃ t, r.message = r.lead ++ t := by
  cases r with
  | invalidName error => exact ⟨_,rfl⟩
  | notRegularFile kind => exact ⟨_,String.append_assoc⟩
  | notDirectory kind => exact ⟨_,String.append_assoc⟩
  | notEmpty size => exact ⟨_,String.append_assoc⟩
  | inaccessible error => exact ⟨_,rfl⟩

def detailLeads : List String :=
  ["name fails allowlist: ","not a regular file (","not a directory (","file is not empty (",
    "cannot inspect entry: ","source template: ","target template: "]

/-- The first and the seventh character of a detail tell what it begins with. -/
theorem detail_lead_unique {a b s t : String} (ha : a ∈ detailLeads) (hb : b ∈ detailLeads)
    (h : a ++ s = b ++ t) : a = b := by
  have hleads : ∀ a ∈ detailLeads, 7 ≤ a.toList.length ∧ ∀ b ∈ detailLeads,
      a.toList[0]? = b.toList[0]? → a.toList[6]? = b.toList[6]? → a = b := by
    decide +kernel
  have hla := (hleads a ha).1
  have hlb := (hleads b hb).1
  have hchar : ∀ i < 7, a.toList[i]? = b.toList[i]? := by
    intro i hi
    have hi' := congrArg (fun s : String => s.toList[i]?) h
    simp only [String.toList_append] at hi'
    rwa [List.getElem?_append_left (by omega),List.getElem?_append_left (by omega)] at hi'
  exact (hleads a ha).2 b hb (hchar 0 (by omega)) (hchar 6 (by omega))

theorem RejectReason.lead_mem (r : RejectReason) : r.lead ∈ detailLeads := by
  cases r <;> simp [lead,detailLeads]

/-- The detail of a failed template is not that of a rejection. -/
theorem RejectReason.message_ne_template {field : String} (h : field = "source" ∨ field = "target")
    (e : InterpolateError) (r : RejectReason) : r.message ≠ templateMessage field e := by
  intro heq
  obtain ⟨t,ht⟩ := r.message_lead
  rw [ht] at heq
  rcases h with rfl | rfl
  · have hlead := detail_lead_unique r.lead_mem (by decide : "source template: " ∈ detailLeads) heq
    cases r <;> simp [lead] at hlead
  · have hlead := detail_lead_unique r.lead_mem (by decide : "target template: " ∈ detailLeads) heq
    cases r <;> simp [lead] at hlead

/-- The reason without the sizes of kinds, which are not displayed. -/
def RejectReason.shown : RejectReason → RejectReason
  | .notRegularFile kind => .notRegularFile (withoutSize kind)
  | .notDirectory kind => .notDirectory (withoutSize kind)
  | r => r

theorem EntryKind.display_inj {k k' : EntryKind} (h : k.display = k'.display) :
    withoutSize k = withoutSize k' := by
  cases k <;> cases k' <;> first | rfl | simp [display] at h

theorem toString_nat_injective : Function.Injective fun n : ℕ => toString n := by
  intro n m h
  have hd : Nat.toDigits 10 n = Nat.toDigits 10 m := by
    rw [← Nat.toList_repr,← Nat.toList_repr,← Nat.toString_eq_repr,← Nat.toString_eq_repr]
    exact congrArg String.toList h
  have hn : Nat.ofDigitChars 10 (Nat.toDigits 10 n) 0 = n := Nat.ofDigitChars_ten_toDigits
  rw [← hn,hd,Nat.ofDigitChars_ten_toDigits]

/-- Reasons that are displayed alike are the same, unless they are about names. -/
theorem RejectReason.shown_eq_of_message {r r' : RejectReason} (h : r.message = r'.message)
    (hr : ∀ e, r ≠ .invalidName e) : r.shown = r'.shown := by
  obtain ⟨t,ht⟩ := r.message_lead
  obtain ⟨t',ht'⟩ := r'.message_lead
  have hlead := detail_lead_unique r.lead_mem r'.lead_mem (ht.symm.trans (h.trans ht'))
  cases r with
  | invalidName e => exact absurd rfl (hr e)
  | notRegularFile kind =>
    cases r' with
    | notRegularFile kind' =>
      have hk : kind.display = kind'.display :=
        (String.append_right_inj _).mp ((String.append_left_inj _).mp h)
      simp only [shown,EntryKind.display_inj hk]
    | _ => simp [lead] at hlead
  | notDirectory kind =>
    cases r' with
    | notDirectory kind' =>
      have hk : kind.display = kind'.display :=
        (String.append_right_inj _).mp ((String.append_left_inj _).mp h)
      simp only [shown,EntryKind.display_inj hk]
    | _ => simp [lead] at hlead
  | notEmpty size =>
    cases r' with
    | notEmpty size' =>
      have hs : toString size = toString size' :=
        (String.append_right_inj _).mp ((String.append_left_inj _).mp h)
      rw [toString_nat_injective hs]
    | _ => simp [lead] at hlead
  | inaccessible error =>
    cases r' with
    | inaccessible error' =>
      have he : error = error' := (String.append_right_inj _).mp h
      rw [he]
    | _ => simp [lead] at hlead

/-! ### Entries -/

/-- A directory whose entries are checked: that of a group, or one above the groups of a set, with
the level names that lead to it. -/
inductive EntryDir
  | ofGroup (id : GroupId)
  | ofSet (set : Name) (above : List Name)
  deriving DecidableEq

/-- The identifier of the group exists. -/
def EntryDir.Valid : EntryDir → Prop
  | .ofGroup id => id.Valid
  | .ofSet _ _ => True

structure DirEntry where
  dir : EntryDir
  file : FileName
  valid : dir.Valid

namespace DirEntry

/-- The note that the entry is rejected. -/
def note (e : DirEntry) (reason : RejectReason) : Note :=
  match e.dir with
  | .ofGroup id => .rejected id ⟨e.file.display,reason⟩
  | .ofSet set above => .setEntryRejected set ⟨displayEntry above e.file.bytes,reason⟩

/-- The label and the subject of the entry's notes. -/
def key (e : DirEntry) : Text × Text :=
  match e.dir with
  | .ofGroup id => (id.display,e.file.display)
  | .ofSet set above => (setLabel set.text,displayEntry above e.file.bytes)

theorem noteIdentity_note (e : DirEntry) (reason : RejectReason) :
    noteIdentity (e.note reason) = (e.key,reason.message) := by
  obtain ⟨dir,file,hv⟩ := e
  cases dir <;> rfl

theorem key_injective : Function.Injective key := by
  rintro ⟨dir,file,hv⟩ ⟨dir',file',hv'⟩ h
  cases dir with
  | ofGroup id =>
    cases dir' with
    | ofGroup id' =>
      obtain ⟨hd,hf⟩ := Prod.mk.inj h
      cases GroupId.display_inj hv hv' hd
      cases FileName.display_injective hf
      rfl
    | ofSet s above => exact absurd (Prod.mk.inj h).1 (id.display_ne_setLabel s)
  | ofSet s above =>
    cases dir' with
    | ofGroup id' => exact absurd (Prod.mk.inj h).1.symm (id'.display_ne_setLabel s)
    | ofSet s' above' =>
      obtain ⟨hs,hf⟩ := Prod.mk.inj h
      cases setLabel_injective hs
      obtain ⟨rfl,rfl⟩ := FileName.displayEntry_inj hf
      rfl

/-- The subject of an entry is not that of a note about its directory. -/
theorem subject_ne_nil (e : DirEntry) : e.key.2 ≠ [] := by
  obtain ⟨dir,file,hv⟩ := e
  cases dir with
  | ofGroup id => exact file.display_ne_nil
  | ofSet s above => exact FileName.displayEntry_ne_nil above file

end DirEntry

/-! ### Passes -/

/-- What a pass observes from. -/
structure NotePass (H : Type) where
  env : PassEnv H
  runtime : Runtime H
  state : State
  degraded : Degraded
  /-- The operating system lists file names. -/
  names : ∀ dir listed failed, env.readDir dir = .ok (listed,failed) → ∀ f ∈ listed,
    f ≠ [] ∧ 47 ∉ f
  /-- The groups that belong to no set have identifiers that exist. -/
  groups : ∀ (id : GroupId) g, runtime.groups[id]? = some g → id.set = none → id.Valid

/-- Following `path` from a directory with `levels` levels beneath it, a directory is listed to its
end and does not have the next one. -/
def ScanEnv.Lacks {H : Type} (env : ScanEnv H) : ℕ → H → List Name → Prop
  | levels+1,dir,n::rest =>
    (¬env.ListingFails dir ∧ ¬env.Untyped dir n ∧ ¬env.Shut dir n ∧ ∀ sub, ¬env.Enters dir n sub) ∨
      ∃ next, env.Enters dir n next ∧ env.Lacks levels next rest
  | _,_,_ => False

namespace NotePass

variable {H : Type} (p : NotePass H)

def observed : Observed := (discoverAndObserve p.env p.runtime p.state p.degraded).2

/-- The set is configured and not degraded, so that its scan is tried. -/
def Scans (s : Name) : Prop := ∃ set, p.runtime.sets[s]? = some set ∧ s ∉ p.degraded.sets

/-- The directory is read to its end. -/
def Reads : EntryDir → Prop
  | .ofGroup id => ¬p.env.FrozenBefore p.runtime p.state p.degraded id ∧
      ∃ g, p.env.Present p.runtime p.degraded id g ∧ ¬p.env.Unobservable g
  | .ofSet s above => ∃ set, p.runtime.sets[s]? = some set ∧ s ∉ p.degraded.sets ∧
      p.env.Scannable set ∧ p.env.Listed set.config.depth set.rootDir above

/-- The group's directory is found deleted, or cannot be opened or read. -/
def Loses (id : GroupId) : Prop :=
  (¬p.env.FrozenBefore p.runtime p.state p.degraded id ∧
    ∃ g, p.env.Present p.runtime p.degraded id g ∧ p.env.Unobservable g) ∨
  p.env.Unavailable p.runtime p.degraded.sets id

/-- The scan of the set reads a directory above `path` and does not find the next one. -/
def Misses (s : Name) (path : List Name) : Prop :=
  ∃ set, p.runtime.sets[s]? = some set ∧ s ∉ p.degraded.sets ∧ p.env.Scannable set ∧
    p.env.Lacks set.config.depth set.rootDir path

/-- The entry is rejected for the reason. -/
def Rejects (e : DirEntry) (reason : RejectReason) : Prop := e.note reason ∈ p.observed.notes

variable {p}

theorem mem_notes {n : Note} : n ∈ p.observed.notes ↔
    (∃ s set, p.runtime.sets[s]? = some set ∧ s ∉ p.degraded.sets ∧
      n ∈ setNotes p.env.toScanEnv set) ∨
    ∃ id g, p.env.Present p.runtime p.degraded id g ∧
      n ∈ groupNotes p.env (frozenBefore (p.runtime.discover p.env.toScanEnv p.degraded.sets).2
        p.state p.degraded) (id,g) := by
  have hnotes : p.observed.notes = (p.runtime.discover p.env.toScanEnv p.degraded.sets).2.notes++
      (observedAfter p.env p.runtime p.state p.degraded).notes := rfl
  rw [hnotes,List.mem_append,mem_discovery_notes,observedAfter,(observe_notes _ _).1]
  simp only [discover_present]

theorem mem_members {id : GroupId} : id ∈ p.observed.members ↔ p.Reads (.ofGroup id) := by
  have hmembers : p.observed.members =
      (observedAfter p.env p.runtime p.state p.degraded).members := rfl
  rw [hmembers,observedAfter,(observe_notes _ _).2,mem_frozenBefore]
  simp only [discover_present,Reads]

theorem mem_scannedSets {s : Name} : s ∈ p.observed.scannedSets ↔
    ∃ set, p.runtime.sets[s]? = some set ∧ s ∉ p.degraded.sets ∧ p.env.Scannable set :=
  (discover_setNames s).1

/-- Every group that is present has an identifier that exists. -/
theorem present_valid {id : GroupId} {g : GroupRuntime H}
    (h : p.env.Present p.runtime p.degraded id g) : id.Valid := by
  rcases h with ⟨hnone,hg⟩ | ⟨⟨s,set,-,-,-,hf⟩,rfl⟩
  · exact p.groups id g hg hnone
  · obtain ⟨path,hlen,-,hn⟩ := hf.name
    rw [hn]
    have hpos := set.config.depth_pos
    have hle := set.config.depth_le_maxSetDepth
    exact ⟨by simp only [GroupId.inSet_path]; omega,by simp only [GroupId.inSet_path]; omega⟩

end NotePass

theorem ScanEnv.Unread.length_le {H : Type} {env : ScanEnv H} {levels : ℕ} {dir : H}
    {path : List Name} (h : env.Unread levels dir path) : path.length ≤ levels := by
  induction levels generalizing dir path with
  | zero => cases h
  | succ levels ih =>
    cases path with
    | nil => exact Nat.zero_le _
    | cons n rest =>
      rcases h with ⟨rfl,-⟩ | ⟨next,-,hu⟩
      · simp
      · exact Nat.succ_le_succ (ih hu)

theorem classify_error {fileName : List UInt8} {kind : Except String EntryKind} {r : Rejection}
    (h : classify fileName kind = .error r) : r = ⟨displayBytes fileName,r.reason⟩ := by
  unfold classify at h
  cases hn : Name.fromBytes fileName with
  | error e =>
    simp only [hn] at h
    cases h
    rfl
  | ok n =>
    cases kind with
    | error e =>
      simp only [hn] at h
      cases h
      rfl
    | ok kind =>
      cases kind with
      | regular size =>
        simp only [hn] at h
        split at h
        · cases h
        · cases h
          rfl
      | _ =>
        simp only [hn] at h
        cases h
        rfl

/-- The rejections of a membership directory are about its entries. -/
theorem scanMembership_rejected {H : Type} {env : ScanEnv H} {dir : H} {m : Membership}
    (hm : scanMembership env dir = .ok m) {r : Rejection} (hr : r ∈ m.rejected) :
    ∃ fileName, env.Has dir fileName ∧
      classify fileName ((env.statx dir fileName).mapError env.strerror) = .error r := by
  unfold scanMembership at hm
  cases hread : env.readDir dir with
  | error e =>
    rw [hread] at hm
    cases hm
  | ok listing =>
    obtain ⟨names,failed⟩ := listing
    cases failed with
    | some e =>
      rw [hread] at hm
      cases hm
    | none =>
      simp only [hread] at hm
      cases hm
      rw [(fromEntries_spec _).2.1,List.mem_filterMap] at hr
      obtain ⟨entry,hentry,hrej⟩ := hr
      obtain ⟨fileName,hf,rfl⟩ := List.mem_map.mp hentry
      refine ⟨fileName,⟨names,none,hread,(List.mem_filter.mp hf).1⟩,?_⟩
      unfold MembershipEntry.rejection at hrej
      split at hrej
      · cases hrej
      · split at hrej
        · cases hrej
        · rename_i hc
          cases hrej
          exact hc

namespace NotePass

variable {H : Type} {p : NotePass H}

/-- Why the entry is rejected, in terms of what the operating system answers. -/
def Finds (p : NotePass H) (e : DirEntry) (reason : RejectReason) : Prop :=
  match e.dir with
  | .ofGroup id => p.Reads (.ofGroup id) ∧ ∃ g, p.env.Present p.runtime p.degraded id g ∧
      classify e.file.bytes ((p.env.statx g.membershipDir e.file.bytes).mapError p.env.strerror) =
        .error ⟨e.file.display,reason⟩
  | .ofSet s above => p.Scans s ∧ ∃ set sub, p.runtime.sets[s]? = some set ∧
      p.env.Walks set.rootDir above sub ∧ p.env.Refuses set.config sub above e.file.bytes reason

theorem Finds.unique {e : DirEntry} {reason reason' : RejectReason} (h : p.Finds e reason)
    (h' : p.Finds e reason') : reason = reason' := by
  obtain ⟨dir,file,hv⟩ := e
  cases dir with
  | ofGroup id =>
    obtain ⟨-,g,hg,hc⟩ := h
    obtain ⟨-,g',hg',hc'⟩ := h'
    rw [← discover_present] at hg hg'
    rw [hg] at hg'
    cases hg'
    rw [hc] at hc'
    cases hc'
    rfl
  | ofSet s above =>
    obtain ⟨-,set,sub,hset,hw,hr⟩ := h
    obtain ⟨-,set',sub',hset',hw',hr'⟩ := h'
    rw [hset] at hset'
    cases hset'
    cases hw.unique hw'
    exact hr.unique hr'

/-- A reason is about the name, or its text tells all of it. -/
theorem Finds.shape {e : DirEntry} {reason : RejectReason} (h : p.Finds e reason) :
    (∃ error, Name.fromBytes e.file.bytes = .error error ∧ reason = .invalidName error) ∨
      (∃ n, Name.fromBytes e.file.bytes = .ok n) ∧ (∀ error, reason ≠ .invalidName error) ∧
        reason.shown = reason := by
  obtain ⟨dir,file,hv⟩ := e
  cases dir with
  | ofGroup id =>
    obtain ⟨-,g,-,hc⟩ := h
    unfold classify at hc
    cases hn : Name.fromBytes file.bytes with
    | error error =>
      simp only [hn] at hc
      cases hc
      exact .inl ⟨error,rfl,rfl⟩
    | ok n =>
      refine .inr ⟨⟨n,rfl⟩,?_⟩
      simp only [hn] at hc
      split at hc
      · cases hc
        exact ⟨fun _ => RejectReason.noConfusion,rfl⟩
      · split at hc
        · cases hc
        · cases hc
          exact ⟨fun _ => RejectReason.noConfusion,rfl⟩
      · rename_i kind hkind _
        cases hc
        refine ⟨fun _ => RejectReason.noConfusion,?_⟩
        cases kind with
        | regular size => exact (hkind size rfl).elim
        | _ => rfl
  | ofSet s above =>
    obtain ⟨-,set,sub,-,-,hr⟩ := h
    rcases hr with hc | ⟨n,hl,error,hc,-,rfl⟩
    · unfold classifySetEntry at hc
      cases hn : Name.fromBytes file.bytes with
      | error error =>
        simp only [hn] at hc
        cases hc
        exact .inl ⟨error,rfl,rfl⟩
      | ok n =>
        refine .inr ⟨⟨n,rfl⟩,?_⟩
        simp only [hn] at hc
        split at hc
        · cases hc
        · cases hc
        · rename_i kind _ _
          cases hc
          refine ⟨fun _ => RejectReason.noConfusion,?_⟩
          cases kind <;> rfl
        · cases hc
          exact ⟨fun _ => RejectReason.noConfusion,rfl⟩
    · exact .inr ⟨⟨n,(classifySetEntry_some.mp hc).1⟩,fun _ => RejectReason.noConfusion,rfl⟩

/-- Two passes that give an entry's rejection the same text have the same reason. -/
theorem Finds.reason_eq {q : NotePass H} {e : DirEntry} {reason reason' : RejectReason}
    (h : p.Finds e reason) (h' : q.Finds e reason') (hm : reason.message = reason'.message) :
    reason = reason' := by
  rcases h.shape with ⟨error,hn,rfl⟩ | ⟨⟨n,hn⟩,hno,hs⟩
  · rcases h'.shape with ⟨error',hn',rfl⟩ | ⟨⟨n',hn'⟩,-⟩
    · rw [hn] at hn'
      cases hn'
      rfl
    · rw [hn] at hn'
      cases hn'
  · rcases h'.shape with ⟨error',hn',rfl⟩ | ⟨-,-,hs'⟩
    · rw [hn] at hn'
      cases hn'
    · rw [← hs,← hs']
      exact RejectReason.shown_eq_of_message hm hno

/-- What a note of a pass is about. -/
inductive About (p : NotePass H) (n : Note) : Prop
  /-- A rejected entry. -/
  | entry (e : DirEntry) (reason : RejectReason) (h : p.Finds e reason) (hn : n = e.note reason)
  /-- A member whose templates fail. -/
  | member (id : GroupId) (name : Name) (field : String) (error : InterpolateError)
    (hfield : field = "source" ∨ field = "target") (hv : id.Valid) (h : p.Reads (.ofGroup id))
    (hm : ∃ g, p.env.Present p.runtime p.degraded id g ∧ p.env.Authorises g.membershipDir name)
    (hn : n = .interpolationFailed id name field error)
  /-- The directory of a group, or one above groups. -/
  | group (id : GroupId) (hv : id.Valid) (h : p.Loses id) (hn : (noteIdentity n).1 = (id.display,[]))
  /-- The root of a set. -/
  | root (s : Name) (h : p.Scans s) (hn : (noteIdentity n).1 = (setLabel s.text,[]))

theorem about_groupNote {id : GroupId} {g : GroupRuntime H} {n : Note}
    (hg : p.env.Present p.runtime p.degraded id g)
    (h : n ∈ groupNotes p.env (frozenBefore (p.runtime.discover p.env.toScanEnv p.degraded.sets).2
      p.state p.degraded) (id,g)) : p.About n := by
  have hv := present_valid hg
  unfold groupNotes at h
  by_cases hfrozen : id ∈ frozenBefore (p.runtime.discover p.env.toScanEnv p.degraded.sets).2
      p.state p.degraded
  · rw [if_pos hfrozen] at h
    cases h
  rw [if_neg hfrozen] at h
  have hnot : ¬p.env.FrozenBefore p.runtime p.state p.degraded id := mt mem_frozenBefore.mpr hfrozen
  by_cases hdel : (p.env.isDeleted g.membershipDir).toOption.getD false = true
  · rw [if_pos hdel,List.mem_singleton] at h
    exact .group id hv (.inl ⟨hnot,g,hg,.inl hdel⟩) (by rw [h]; rfl)
  rw [if_neg hdel] at h
  cases hs : scanMembership p.env.toScanEnv g.membershipDir with
  | error e =>
    have hf := (scanMembership_error_iff g.membershipDir).mp ⟨e,hs⟩
    simp only [hs,List.mem_singleton] at h
    exact .group id hv (.inl ⟨hnot,g,hg,.inr hf⟩) (by rw [h]; rfl)
  | ok m =>
    have hf : ¬p.env.ListingFails g.membershipDir := by
      rw [← scanMembership_error_iff]
      simp [hs]
    have hreads : p.Reads (.ofGroup id) := ⟨hnot,g,hg,fun hu => hu.elim hdel hf⟩
    simp only [hs,List.mem_append,List.mem_map,List.mem_filterMap] at h
    rcases h with ⟨r,hr,rfl⟩ | ⟨name,hname,hn⟩
    · obtain ⟨f,hhas,hc⟩ := scanMembership_rejected hs hr
      obtain ⟨names,failed,hread,hmem⟩ := hhas
      obtain ⟨hne,hslash⟩ := p.names _ _ _ hread f hmem
      have hrej := classify_error hc
      refine .entry ⟨.ofGroup id,⟨f,hne,hslash⟩,hv⟩ r.reason ⟨hreads,g,hg,?_⟩ ?_
      · rw [hrej] at hc
        exact hc
      · show Note.rejected id r = .rejected id ⟨displayBytes f,r.reason⟩
        rw [← hrej]
    · obtain ⟨field,error,hfield,rfl⟩ := memberNote_eq hn
      have hauth := scanMembership_authorises hs (Std.ExtTreeSet.mem_toList.mp hname)
      exact .member id name field error hfield hv hreads ⟨g,hg,hauth⟩ rfl

theorem about_setNote {s : Name} {set : SetRuntime H} {n : Note}
    (hset : p.runtime.sets[s]? = some set) (hskip : s ∉ p.degraded.sets)
    (h : n ∈ setNotes p.env.toScanEnv set) : p.About n := by
  have hname := p.runtime.sets_keyed s set hset
  rcases setNotes_cases h with ⟨hsc,⟨path,sub,f,reason,hlt,hw,hhas,hr,rfl⟩ | ⟨path,e,hu,rfl⟩⟩ |
    ⟨hsc,rfl | ⟨e,rfl⟩⟩
  · obtain ⟨names,failed,hread,hmem⟩ := hhas
    obtain ⟨hne,hslash⟩ := p.names _ _ _ hread f hmem
    refine .entry ⟨.ofSet s path,⟨f,hne,hslash⟩,trivial⟩ reason ⟨⟨set,hset,hskip⟩,set,sub,hset,hw,hr⟩ ?_
    rw [hname]
    rfl
  · have hpath : path ≠ [] := by
      rintro rfl
      exact hsc.not_unread_root hu
    have hle := hu.length_le.trans set.config.depth_le_maxSetDepth
    refine .group (.inSet s path) ⟨List.length_pos_of_ne_nil hpath,hle⟩
      (.inr ⟨s,set,path,hset,hskip,hsc,hpath,hu,rfl⟩) ?_
    rw [hname]
    rfl
  · refine .root s ⟨set,hset,hskip⟩ ?_
    rw [hname]
    rfl
  · refine .root s ⟨set,hset,hskip⟩ ?_
    rw [hname]
    rfl

theorem about {n : Note} (h : n ∈ p.observed.notes) : p.About n := by
  rcases mem_notes.mp h with ⟨s,set,hset,hskip,hn⟩ | ⟨id,g,hg,hn⟩
  · exact about_setNote hset hskip hn
  · exact about_groupNote hg hn

theorem rejects_finds {e : DirEntry} {reason : RejectReason} (h : p.Rejects e reason) :
    p.Finds e reason := by
  have hkey := e.noteIdentity_note reason
  have hkind : ∀ id name field error, e.note reason ≠ .interpolationFailed id name field error := by
    intro id name field error
    obtain ⟨dir,file,hv⟩ := e
    cases dir <;> exact Note.noConfusion
  rcases about h with ⟨e',reason',hf,hn⟩ | ⟨id,name,field,error,-,-,-,-,hn⟩ | ⟨id,-,-,hn⟩ | ⟨s,-,hn⟩
  · have hkeys := congrArg noteIdentity hn
    rw [hkey,e'.noteIdentity_note] at hkeys
    cases DirEntry.key_injective (Prod.mk.inj hkeys).1
    have hreason : reason = reason' := by
      obtain ⟨dir,file,hv⟩ := e
      cases dir <;> cases hn <;> rfl
    rwa [hreason]
  · exact absurd hn (hkind id name field error)
  · rw [hkey] at hn
    exact absurd (congrArg Prod.snd hn) e.subject_ne_nil
  · rw [hkey] at hn
    exact absurd (congrArg Prod.snd hn) e.subject_ne_nil

/-- In one pass an entry is rejected for one reason. -/
theorem rejects_unique {e : DirEntry} {reason reason' : RejectReason} (h : p.Rejects e reason)
    (h' : p.Rejects e reason') : reason = reason' :=
  (rejects_finds h).unique (rejects_finds h')

theorem reads_not_loses {id : GroupId} (h : p.Reads (.ofGroup id)) : ¬p.Loses id := by
  obtain ⟨hnot,g,hg,hu⟩ := h
  rintro (⟨-,g',hg',hu'⟩ | hun)
  · rw [← discover_present] at hg hg'
    rw [hg] at hg'
    cases hg'
    exact hu hu'
  · exact hnot (.inr (.inl hun))

/-- A note with an entry's key is about that entry: a rejection, or a failed template. -/
theorem note_of_key {e : DirEntry} {n : Note} (hn : n ∈ p.observed.notes)
    (hk : (noteIdentity n).1 = e.key) : (∃ reason, n = e.note reason) ∨
      ∃ id name field error, e.dir = .ofGroup id ∧ e.file.display = name.text ∧
        (field = "source" ∨ field = "target") ∧ p.Reads (.ofGroup id) ∧
        (∃ g, p.env.Present p.runtime p.degraded id g ∧
          p.env.Authorises g.membershipDir name) ∧
        (noteIdentity n).2 = templateMessage field error := by
  rcases about hn with ⟨e',reason,hf,rfl⟩ | ⟨id,name,field,error,hfield,hv,hr,hm,rfl⟩ |
    ⟨id,-,-,hid⟩ | ⟨s,-,hs⟩
  · rw [e'.noteIdentity_note] at hk
    cases DirEntry.key_injective hk
    exact .inl ⟨reason,rfl⟩
  · obtain ⟨dir,file,hev⟩ := e
    cases dir with
    | ofGroup id' =>
      obtain ⟨hd,hf⟩ := Prod.mk.inj hk
      cases GroupId.display_inj hv hev hd
      exact .inr ⟨id,name,field,error,rfl,hf.symm,hfield,hr,hm,rfl⟩
    | ofSet s above => exact absurd (Prod.mk.inj hk).1 (id.display_ne_setLabel s)
  · rw [hk] at hid
    exact absurd (congrArg Prod.snd hid) e.subject_ne_nil
  · rw [hk] at hs
    exact absurd (congrArg Prod.snd hs) e.subject_ne_nil

/-- A rejected entry is no member whose templates fail. -/
theorem note_of_rejected {e : DirEntry} {reason : RejectReason} (h : p.Rejects e reason) {n : Note}
    (hn : n ∈ p.observed.notes) (hk : (noteIdentity n).1 = e.key) : n = e.note reason := by
  rcases note_of_key hn hk with ⟨reason',rfl⟩ |
    ⟨id,name,field,error,hdir,hname,-,-,⟨g,hg,names,-,-,hstat⟩,-⟩
  · rw [rejects_unique h hn]
  · exfalso
    have hf := rejects_finds h
    simp only [Finds,hdir] at hf
    obtain ⟨-,g',hg',hc⟩ := hf
    rw [← discover_present] at hg hg'
    rw [hg] at hg'
    cases hg'
    have hbytes : e.file.bytes = name.bytes :=
      displayBytes_injective (hname.trans name.displayBytes_bytes.symm)
    rw [hbytes,hstat] at hc
    have hok : classify name.bytes (Except.mapError p.env.strerror (.ok (.regular 0))) = .ok name :=
      classify_ok_iff.mpr ⟨rfl,rfl⟩
    rw [hok] at hc
    cases hc

theorem mem_examined {l : Text} : l ∈ p.observed.examined ↔
    (∃ id : GroupId, p.Reads (.ofGroup id) ∧ id.display = l) ∨
      ∃ s, s ∈ p.observed.scannedSets ∧ setLabel s.text = l := by
  simp only [Observed.examined,Finset.mem_union,List.mem_toFinset,List.mem_map,
    Std.ExtTreeMap.mem_keys,mem_members,Finset.mem_image]

theorem loses_noted {id : GroupId} (h : p.Loses id) :
    ∃ n ∈ p.observed.notes, (noteIdentity n).1 = (id.display,[]) := by
  rcases h with ⟨hnot,g,hg,hu⟩ | ⟨s,set,path,hset,hskip,hs,hne,hu,rfl⟩
  · have hfrozen : id ∉ frozenBefore (p.runtime.discover p.env.toScanEnv p.degraded.sets).2
        p.state p.degraded := mt mem_frozenBefore.mp hnot
    suffices hn : ∃ n ∈ groupNotes p.env (frozenBefore
        (p.runtime.discover p.env.toScanEnv p.degraded.sets).2 p.state p.degraded) (id,g),
        (noteIdentity n).1 = (id.display,[]) by
      obtain ⟨n,hn,hk⟩ := hn
      exact ⟨n,mem_notes.mpr (.inr ⟨id,g,hg,hn⟩),hk⟩
    unfold groupNotes
    rw [if_neg hfrozen]
    by_cases hdel : (p.env.isDeleted g.membershipDir).toOption.getD false = true
    · rw [if_pos hdel]
      exact ⟨_,List.mem_singleton_self _,rfl⟩
    · rw [if_neg hdel]
      obtain ⟨e,he⟩ := (scanMembership_error_iff g.membershipDir).mpr (hu.resolve_left hdel)
      simp only [he]
      exact ⟨_,List.mem_singleton_self _,rfl⟩
  · obtain ⟨e,he⟩ := setNotes_of_unread hs hne hu
    rw [p.runtime.sets_keyed s set hset] at he
    exact ⟨_,mem_notes.mpr (.inl ⟨s,set,hset,hskip,he⟩),rfl⟩

/-- The notes of a group are taken from a pass that reads its directory or finds it lost. -/
theorem examines_group {id : GroupId} (hv : id.Valid) :
    p.observed.Examines id.display ↔ p.Reads (.ofGroup id) ∨ p.Loses id := by
  constructor
  · rintro (h | ⟨n,hn,hl⟩)
    · rcases mem_examined.mp h with ⟨id',hr,hd⟩ | ⟨s,-,hs⟩
      · have hv' : id'.Valid := by
          obtain ⟨-,g,hg,-⟩ := hr
          exact present_valid hg
        cases GroupId.display_inj hv' hv hd
        exact .inl hr
      · exact absurd hs.symm (id.display_ne_setLabel s)
    · rcases about hn with ⟨e,reason,hf,rfl⟩ | ⟨id',name,field,error,-,hv',hr,-,rfl⟩ |
        ⟨id',hv',hlost,hid⟩ | ⟨s,-,hs⟩
      · rw [e.noteIdentity_note] at hl
        obtain ⟨dir,file,hev⟩ := e
        cases dir with
        | ofGroup id' =>
          cases GroupId.display_inj hev hv hl
          exact .inl hf.1
        | ofSet s above => exact absurd hl.symm (id.display_ne_setLabel s)
      · cases GroupId.display_inj hv' hv hl
        exact .inl hr
      · rw [hid] at hl
        cases GroupId.display_inj hv' hv hl
        exact .inr hlost
      · rw [hs] at hl
        exact absurd hl.symm (id.display_ne_setLabel s)
  · rintro (hr | hlost)
    · exact .inl (mem_examined.mpr (.inl ⟨id,hr,rfl⟩))
    · obtain ⟨n,hn,hk⟩ := loses_noted hlost
      exact .inr ⟨n,hn,by rw [hk]⟩

/-- The notes of a set are taken from a pass that tries to scan it. -/
theorem examines_set {s : Name} : p.observed.Examines (setLabel s.text) ↔ p.Scans s := by
  constructor
  · rintro (h | ⟨n,hn,hl⟩)
    · rcases mem_examined.mp h with ⟨id,-,hd⟩ | ⟨s',hs',hl⟩
      · exact absurd hd (id.display_ne_setLabel s)
      · cases setLabel_injective hl
        obtain ⟨set,hset,hskip,-⟩ := mem_scannedSets.mp hs'
        exact ⟨set,hset,hskip⟩
    · rcases about hn with ⟨e,reason,hf,rfl⟩ | ⟨id,name,field,error,-,-,-,-,rfl⟩ | ⟨id,-,-,hid⟩ |
        ⟨s',hs',hk⟩
      · rw [e.noteIdentity_note] at hl
        obtain ⟨dir,file,hev⟩ := e
        cases dir with
        | ofGroup id => exact absurd hl (id.display_ne_setLabel s)
        | ofSet s' above =>
          cases setLabel_injective hl
          exact hf.1
      · exact absurd hl (id.display_ne_setLabel s)
      · rw [hid] at hl
        exact absurd hl (id.display_ne_setLabel s)
      · rw [hk] at hl
        cases setLabel_injective hl
        exact hs'
  · rintro ⟨set,hset,hskip⟩
    by_cases hs : p.env.Scannable set
    · exact .inl (mem_examined.mpr (.inr ⟨s,mem_scannedSets.mpr ⟨set,hset,hskip,hs⟩,rfl⟩))
    · obtain ⟨n,hn,hl⟩ := setNotes_of_not_scannable hs
      rw [p.runtime.sets_keyed s set hset] at hl
      exact .inr ⟨n,mem_notes.mpr (.inl ⟨s,set,hset,hskip,hn⟩),hl⟩

end NotePass
end Byssus
