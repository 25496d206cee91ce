import Byssus.Rejections

/-! Runs of passes with one note log: when the rejection of an entry is reported, and when it is
reported to be gone. -/
namespace Byssus

variable {H : Type}

/-- The log after some passes. -/
def NoteLog.after (passes : List (NotePass H)) : NoteLog :=
  passes.foldl (fun log p => (log.update p.observed).1) .empty

/-- What the log reports at a pass. -/
def NoteLog.reports (log : NoteLog) (p : NotePass H) : List NoteEvent :=
  (log.update p.observed).2

/-- A rejection of the entry is active. -/
def NoteLog.Holds (log : NoteLog) (e : DirEntry) : Prop :=
  ∃ reason : RejectReason, log.active[e.key]? = some reason.message

/-- Something holds at every pass of a run, with the log before it. -/
def NoteLog.Throughout (passes : List (NotePass H)) (P : List (NotePass H) → NotePass H → Prop) :
    Prop :=
  ∀ pre p post, passes = pre++p::post → P pre p

section
variable {log : NoteLog} {p : NotePass H} {e : DirEntry} {reason : RejectReason}

theorem noted_of_rejects (h : p.Rejects e reason) : p.observed.Noted e.key :=
  ⟨_,h,by rw [e.noteIdentity_note]⟩

theorem raised_iff : .raised (e.note reason) ∈ log.reports p ↔
    p.Rejects e reason ∧ log.active[e.key]? ≠ some reason.message := by
  have h := (update_spec log p.observed).raised (e.note reason)
  rwa [e.noteIdentity_note] at h

theorem cleared_iff : .cleared e.key.1 e.key.2 ∈ log.reports p ↔
    e.key ∈ log.active ∧ ¬p.observed.Noted e.key ∧ p.observed.Examines e.key.1 :=
  (update_spec log p.observed).cleared e.key.1 e.key.2

theorem NoteLog.Holds.mem (h : log.Holds e) : e.key ∈ log.active := by
  obtain ⟨reason,h⟩ := h
  rw [Std.ExtTreeMap.mem_iff_isSome_getElem?,h]
  rfl

/-! ### When a rejection is reported to be gone -/

/-- The directory of an entry is not found lost, and is read if its set is scanned. -/
def NotePass.Sees (p : NotePass H) : EntryDir → Prop
  | .ofGroup id => ¬p.Loses id
  | .ofSet s above => p.Scans s → p.Reads (.ofSet s above)

/-- The directory of every entry whose rejection is active, and that is not rejected again, is
seen. -/
def NotePass.SeesActive (p : NotePass H) (log : NoteLog) : Prop :=
  ∀ e, log.Holds e → (∀ reason, ¬p.Rejects e reason) → p.Sees e.dir

/-- A rejection is reported to be gone only when its directory was read and the entry is not
rejected. -/
def NotePass.ClearsTruly (p : NotePass H) (log : NoteLog) : Prop :=
  ∀ e, log.Holds e → .cleared e.key.1 e.key.2 ∈ log.reports p →
    p.Reads e.dir ∧ ∀ reason, ¬p.Rejects e reason

/-- The notes of an entry are taken from the pass. -/
theorem examines_entry (e : DirEntry) : p.observed.Examines e.key.1 ↔
    match e.dir with
    | .ofGroup id => p.Reads (.ofGroup id) ∨ p.Loses id
    | .ofSet s _ => p.Scans s := by
  obtain ⟨dir,file,hv⟩ := e
  cases dir with
  | ofGroup id => exact NotePass.examines_group hv
  | ofSet s above => exact NotePass.examines_set

theorem clearsTruly_iff (log : NoteLog) (p : NotePass H) :
    p.ClearsTruly log ↔ p.SeesActive log := by
  constructor
  · intro h e hheld hno
    have hcleared : ¬p.observed.Noted e.key → p.observed.Examines e.key.1 → p.Reads e.dir :=
      fun hn hex => (h e hheld (cleared_iff.mpr ⟨hheld.mem,hn,hex⟩)).1
    have hexam := examines_entry (p := p) e
    have hnoted : p.observed.Noted e.key → ∃ id, e.dir = .ofGroup id ∧ p.Reads (.ofGroup id) := by
      rintro ⟨n,hn,hk⟩
      rcases NotePass.note_of_key hn hk with ⟨reason,rfl⟩ | ⟨id,-,-,-,hdir,-,-,hr,-⟩
      · exact absurd hn (hno reason)
      · exact ⟨id,hdir,hr⟩
    cases hdir : e.dir with
    | ofGroup id =>
      intro hlost
      simp only [hdir] at hexam hcleared hnoted
      have hread : p.Reads (.ofGroup id) := by
        by_cases hn : p.observed.Noted e.key
        · obtain ⟨id',hid,hr⟩ := hnoted hn
          cases hid
          exact hr
        · exact hcleared hn (hexam.mpr (.inr hlost))
      exact NotePass.reads_not_loses hread hlost
    | ofSet s above =>
      intro hscan
      simp only [hdir] at hexam hcleared hnoted
      refine hcleared (fun hn => ?_) (hexam.mpr hscan)
      obtain ⟨id,hid,-⟩ := hnoted hn
      cases hid
  · intro h e hheld hcleared
    obtain ⟨-,hn,hex⟩ := cleared_iff.mp hcleared
    have hno : ∀ reason, ¬p.Rejects e reason := fun reason hr => hn (noted_of_rejects hr)
    refine ⟨?_,hno⟩
    have hsees := h e hheld hno
    rw [examines_entry] at hex
    cases hdir : e.dir with
    | ofGroup id =>
      simp only [hdir] at hex hsees
      exact hex.resolve_right hsees
    | ofSet s above =>
      simp only [hdir] at hex hsees
      exact hsees hex

/-- In a run, every rejection that is reported to be gone is gone exactly if every pass sees the
directories of the active ones. -/
theorem cleared_only_when_gone (passes : List (NotePass H)) :
    NoteLog.Throughout passes (fun pre p => p.ClearsTruly (.after pre)) ↔
      NoteLog.Throughout passes fun pre p => p.SeesActive (.after pre) := by
  simp only [clearsTruly_iff]

end

/-! ### When a rejection is reported -/

/-- The scan of a set finds that the directory does not exist. -/
def NotePass.Gone (p : NotePass H) : EntryDir → Prop
  | .ofGroup id => ∃ s path, id = .inSet s path ∧ p.Misses s path
  | .ofSet s above => p.Misses s above

/-- The pass tells whether the entry is rejected: it is, or its directory is read, or does not
exist. -/
def NotePass.Determines (p : NotePass H) (e : DirEntry) : Prop :=
  (∃ reason, p.Rejects e reason) ∨ p.Reads e.dir ∨ p.Gone e.dir

/-- The latest of the passes that determines the status of the entry rejects it for the reason. -/
def LastRejected (passes : List (NotePass H)) (e : DirEntry) (reason : RejectReason) : Prop :=
  ∃ pre p post, passes = pre++p::post ∧ p.Rejects e reason ∧ ∀ q ∈ post, ¬q.Determines e

/-- The notes of the entry are taken from the pass only if it determines the entry's status. -/
def NotePass.Settles (p : NotePass H) : EntryDir → Prop
  | .ofGroup id => ¬p.Loses id ∧ ¬p.Gone (.ofGroup id)
  | .ofSet s above => p.Scans s → p.Reads (.ofSet s above) ∨ p.Gone (.ofSet s above)

def NotePass.SettlesActive (p : NotePass H) (log : NoteLog) : Prop :=
  ∀ e, log.Holds e → (∀ reason, ¬p.Rejects e reason) → p.Settles e.dir

theorem NoteLog.after_concat (passes : List (NotePass H)) (p : NotePass H) :
    NoteLog.after (passes++[p]) = ((NoteLog.after passes).update p.observed).1 := by
  rw [NoteLog.after,List.foldl_append]
  rfl

theorem NoteLog.throughout_nil {P : List (NotePass H) → NotePass H → Prop} :
    NoteLog.Throughout [] P := by
  intro pre p post heq
  cases pre <;> cases heq

theorem NoteLog.throughout_concat {passes : List (NotePass H)} {p : NotePass H}
    {P : List (NotePass H) → NotePass H → Prop} :
    NoteLog.Throughout (passes++[p]) P ↔ NoteLog.Throughout passes P ∧ P passes p := by
  constructor
  · intro h
    refine ⟨?_,h passes p [] rfl⟩
    rintro pre q post rfl
    exact h pre q (post++[p]) (by simp)
  · rintro ⟨hinit,hlast⟩ pre q post heq
    rcases List.eq_nil_or_concat post with rfl | ⟨post,r,rfl⟩
    · obtain ⟨rfl,hq⟩ := List.append_inj' heq rfl
      cases hq
      exact hlast
    · rw [List.concat_eq_append,← List.cons_append,← List.append_assoc] at heq
      exact hinit pre q post (List.append_inj' heq rfl).1

theorem lastRejected_concat {passes : List (NotePass H)} {p : NotePass H} {e : DirEntry}
    {reason : RejectReason} : LastRejected (passes++[p]) e reason ↔
      p.Rejects e reason ∨ (¬p.Determines e ∧ LastRejected passes e reason) := by
  constructor
  · rintro ⟨pre,q,post,heq,hq,hpost⟩
    rcases List.eq_nil_or_concat post with rfl | ⟨post,r,rfl⟩
    · obtain ⟨-,hqp⟩ := List.append_inj' heq rfl
      cases hqp
      exact .inl hq
    · rw [List.concat_eq_append,← List.cons_append,← List.append_assoc] at heq
      obtain ⟨rfl,hrp⟩ := List.append_inj' heq rfl
      cases hrp
      rw [List.concat_eq_append] at hpost
      exact .inr ⟨hpost p (by simp),pre,q,post,rfl,hq,fun r hr => hpost r (by simp [hr])⟩
  · rintro (h | ⟨hp,pre,q,post,rfl,hq,hpost⟩)
    · exact ⟨passes,p,[],rfl,h,by simp⟩
    · refine ⟨pre,q,post++[p],by simp,hq,?_⟩
      intro r hr
      rcases List.mem_append.mp hr with hr | hr
      · exact hpost r hr
      · rwa [List.mem_singleton.mp hr]

theorem gone_scans {p : NotePass H} {s : Name} {path : List Name} (h : p.Misses s path) :
    p.Scans s := by
  obtain ⟨set,hset,hskip,-⟩ := h
  exact ⟨set,hset,hskip⟩

/-- A pass that settles the directory of an entry and does not reject the entry determines its
status exactly if the notes of the entry are taken from it. -/
theorem NotePass.Settles.determines_iff {p : NotePass H} {e : DirEntry} (h : p.Settles e.dir)
    (hno : ∀ reason, ¬p.Rejects e reason) : p.Determines e ↔ p.observed.Examines e.key.1 := by
  rw [examines_entry]
  unfold NotePass.Determines
  cases hdir : e.dir with
  | ofGroup id =>
    obtain ⟨hlost,hgone⟩ : ¬p.Loses id ∧ ¬p.Gone (.ofGroup id) := by rwa [hdir] at h
    simp only [hno,exists_false,false_or,hlost,hgone,or_false]
  | ofSet s above =>
    have hscan : p.Scans s → p.Reads (.ofSet s above) ∨ p.Gone (.ofSet s above) := by
      rwa [hdir] at h
    simp only [hno,exists_false,false_or]
    constructor
    · rintro (⟨set,hset,hskip,-⟩ | hgone)
      · exact ⟨set,hset,hskip⟩
      · exact gone_scans hgone
    · exact hscan

/-- What the log remembers of entries: the reasons of those that are rejected at last, and why
templates failed. -/
structure NoteLog.Remembers (log : NoteLog) (passes : List (NotePass H)) : Prop where
  rejected : ∀ e reason, LastRejected passes e reason → log.active[e.key]? = some reason.message
  active : ∀ (e : DirEntry) (d : String), log.active[e.key]? = some d →
    (∃ reason, d = reason.message ∧ LastRejected passes e reason) ∨
      ∃ field error, (field = "source" ∨ field = "target") ∧ d = templateMessage field error

theorem remembers_step {log : NoteLog} {passes : List (NotePass H)} {p : NotePass H}
    (h : log.Remembers passes) (hp : p.SettlesActive log) :
    (log.update p.observed).1.Remembers (passes++[p]) := by
  have hspec := update_spec log p.observed
  constructor
  · intro e reason hlast
    rcases lastRejected_concat.mp hlast with hr | ⟨hdet,hlast⟩
    · obtain ⟨n,hn,hk,ha⟩ := hspec.noted e.key (noted_of_rejects hr)
      rw [ha,NotePass.note_of_rejected hr hn hk,e.noteIdentity_note]
    · have hact := h.rejected e reason hlast
      have hno : ∀ reason, ¬p.Rejects e reason := fun reason hr => hdet (.inl ⟨reason,hr⟩)
      have hsettles := hp e ⟨reason,hact⟩ hno
      have hexam := mt (hsettles.determines_iff hno).mpr hdet
      refine (hspec.kept e.key _ ?_).mpr ⟨hact,hexam⟩
      rintro ⟨n,hn,hk⟩
      exact hexam (.inr ⟨n,hn,by rw [hk]⟩)
  · intro e d ha
    by_cases hnoted : p.observed.Noted e.key
    · obtain ⟨n,hn,hk,ha'⟩ := hspec.noted e.key hnoted
      rw [ha'] at ha
      cases ha
      rcases NotePass.note_of_key hn hk with ⟨reason,rfl⟩ | ⟨id,name,field,error,-,-,hfield,-,-,hd⟩
      · refine .inl ⟨reason,by rw [e.noteIdentity_note],lastRejected_concat.mpr (.inl hn)⟩
      · exact .inr ⟨field,error,hfield,hd⟩
    · obtain ⟨ha,hexam⟩ := (hspec.kept e.key d hnoted).mp ha
      rcases h.active e d ha with ⟨reason,rfl,hlast⟩ | htemplate
      · have hno : ∀ reason, ¬p.Rejects e reason := fun reason hr => hnoted (noted_of_rejects hr)
        have hdet := mt ((hp e ⟨reason,ha⟩ hno).determines_iff hno).mp hexam
        exact .inl ⟨reason,rfl,lastRejected_concat.mpr (.inr ⟨hdet,hlast⟩)⟩
      · exact .inr htemplate

theorem after_remembers {passes : List (NotePass H)}
    (h : NoteLog.Throughout passes fun pre p => p.SettlesActive (.after pre)) :
    (NoteLog.after passes).Remembers passes := by
  induction passes using List.reverseRecOn with
  | nil =>
    constructor
    · rintro e reason ⟨pre,p,post,heq,-⟩
      cases pre <;> cases heq
    · intro e d ha
      have hnone : (NoteLog.after ([] : List (NotePass H))).active[e.key]? = none := by
        simp [NoteLog.after,NoteLog.empty]
      rw [hnone] at ha
      cases ha
  | append_singleton passes p ih =>
    obtain ⟨hinit,hlast⟩ := NoteLog.throughout_concat.mp h
    rw [NoteLog.after_concat]
    exact remembers_step (ih hinit) hlast

/-- In a run in which every pass settles the directories of the active rejections, the rejection
of an entry is reported exactly if the entry was not rejected for this reason by the latest
earlier pass that determined its status. -/
theorem new_rejection_reported {passes : List (NotePass H)}
    (h : NoteLog.Throughout passes fun pre p => p.SettlesActive (.after pre)) :
    NoteLog.Throughout passes fun pre p => ∀ e reason,
      .raised (e.note reason) ∈ (NoteLog.after pre).reports p ↔
        p.Rejects e reason ∧ ¬LastRejected pre e reason := by
  rintro pre p post rfl e reason
  have hpre : NoteLog.Throughout pre fun pre p => p.SettlesActive (.after pre) := by
    rintro pre' q post' rfl
    exact h pre' q (post'++p::post) (by simp)
  have hlog := after_remembers hpre
  rw [raised_iff]
  refine and_congr_right fun hr => not_congr ⟨fun ha => ?_,hlog.rejected e reason⟩
  rcases hlog.active e _ ha with ⟨reason',hm,hlast⟩ | ⟨field,error,hfield,hm⟩
  · obtain ⟨pre',q,post',-,hq,-⟩ := id hlast
    have hreason := (NotePass.rejects_finds hr).reason_eq (NotePass.rejects_finds hq) hm
    rwa [hreason]
  · exact absurd hm (reason.message_ne_template hfield error)

/-! Runs with one group of a set, whose directory is the handle 1. -/
namespace SampleRejections

open UntypedEntry

/-- The root lists `groups`; the directory `a`, if it can be read, lists the directory `b`. -/
def env (groups : List (List UInt8)) (readable : Bool) : PassEnv ℕ where
  readDir := fun dir =>
    if dir = 0 then .ok (groups,none)
    else if readable then .ok ([[98]],none)
    else .error (.other 5)
  statx := fun _ _ => .ok .directory
  openDir := fun _ _ => .ok 1
  isDeleted := fun _ => .ok false
  strerror := fun _ => "Input/output error (os error 5)"
  rootError := fun _ => none
  resolveDir := fun _ => .ok (Sample.dir 42)
  inspect := fun _ => .notMounted

/-- A pass over the set with the group `a` if it is there. -/
def pass (present readable : Bool) : NotePass ℕ where
  env := env (if present then [[97]] else []) readable
  runtime := runtimeOf set
  state := .empty
  degraded := ⟨∅,∅⟩
  names := by
    intro dir listed failed h f hf
    simp only [env] at h
    split_ifs at h <;> cases h <;> simp_all
  groups := by
    intro id g h
    simp [runtimeOf] at h

def entry : DirEntry := ⟨.ofGroup group,⟨[98],by decide,by decide⟩,⟨by decide,by decide⟩⟩

def reason : RejectReason := .notRegularFile .directory

theorem rejects : (pass true true).Rejects entry reason := by
  show entry.note reason ∈ (pass true true).observed.notes
  decide +kernel

/-- The second pass cannot read the directory. -/
theorem unreadable_clears : ¬∀ passes : List (NotePass ℕ),
    NoteLog.Throughout passes fun pre p => p.ClearsTruly (.after pre) := by
  intro h
  have htrue := h [pass true true,pass true false] [pass true true] (pass true false) [] rfl
  have hheld : (NoteLog.after [pass true true]).active[entry.key]? = some reason.message := by
    decide +kernel
  have hcleared : .cleared entry.key.1 entry.key.2 ∈
      (NoteLog.after [pass true true]).reports (pass true false) := by
    decide +kernel
  have hread := (htrue entry ⟨reason,hheld⟩ hcleared).1
  have hno : group ∉ (pass true false).observed.members := by decide +kernel
  exact hno (NotePass.mem_members.mpr hread)

/-- The root is listed without the group. -/
theorem group_gone : (pass false true).Gone entry.dir := by
  have hlisted : ¬(pass false true).env.ListingFails 0 := by
    simp [ScanEnv.ListingFails,ScanEnv.listingError,pass,env]
  have hnone : ∀ n f, ¬(pass false true).env.Lists 0 n f := by
    rintro n f ⟨-,names,failed,hr,hm⟩
    simp only [pass,env] at hr
    cases hr
    cases hm
  refine ⟨setName,[Sample.a],rfl,⟨set,0⟩,sets_get,by simp [pass],⟨rfl,hlisted⟩,?_⟩
  have hd : set.depth = 1 := by decide +kernel
  rw [hd]
  refine .inl ⟨hlisted,?_,?_,?_⟩
  · rintro ⟨f,-,hl,-⟩
    exact hnone _ f hl
  · rintro ⟨f,-,hl,-⟩
    exact hnone _ f hl
  · rintro - ⟨f,hl,-⟩
    exact hnone _ f hl

/-- The group is deleted and created again. -/
theorem created_again_unreported : ¬∀ passes : List (NotePass ℕ),
    NoteLog.Throughout passes fun pre p => ∀ e reason,
      .raised (e.note reason) ∈ (NoteLog.after pre).reports p ↔
        p.Rejects e reason ∧ ¬LastRejected pre e reason := by
  intro h
  have hiff := h [pass true true,pass false true,pass true true] [pass true true,pass false true]
    (pass true true) [] rfl entry reason
  have hsilent : .raised (entry.note reason) ∉
      (NoteLog.after [pass true true,pass false true]).reports (pass true true) := by
    decide +kernel
  refine hsilent (hiff.mpr ⟨rejects,fun hlast => ?_⟩)
  have hlast : LastRejected ([pass true true]++[pass false true]) entry reason := hlast
  rcases lastRejected_concat.mp hlast with hr | ⟨hdet,-⟩
  · have hno : entry.note reason ∉ (pass false true).observed.notes := by decide +kernel
    exact hno hr
  · exact hdet (.inr (.inr group_gone))

/-- A pass after the directory `b` was removed. -/
def emptied : NotePass ℕ where
  env := {env [[97]] true with readDir := fun dir => .ok (if dir = 0 then [[97]] else [],none)}
  runtime := runtimeOf set
  state := .empty
  degraded := ⟨∅,∅⟩
  names := by
    intro dir listed failed h f hf
    cases h
    split_ifs at hf <;> simp_all
  groups := (pass true true).groups

theorem emptied_settles : emptied.Settles entry.dir := by
  have hread : emptied.Reads (.ofGroup group) := NotePass.mem_members.mp (by decide +kernel)
  refine ⟨NotePass.reads_not_loses hread,?_⟩
  rintro ⟨s,path,hid,set',hset,-,-,hlacks⟩
  cases hid
  have hset : (runtimeOf set).sets[setName]? = some set' := hset
  rw [sets_get] at hset
  cases hset
  have hd : set.depth = 1 := by decide +kernel
  rw [hd] at hlacks
  rcases hlacks with ⟨-,-,-,hno⟩ | ⟨next,-,hlacks⟩
  · exact hno 1 ⟨[97],⟨by decide,[[97]],none,rfl,by simp⟩,rfl,rfl⟩
  · exact hlacks

theorem holds_entry {log : NoteLog} (hkeys : log.active.keys = [entry.key]) {e : DirEntry}
    (h : log.Holds e) : e = entry := by
  have hmem : e.key ∈ log.active.keys := Std.ExtTreeMap.mem_keys.mpr h.mem
  rw [hkeys,List.mem_singleton] at hmem
  exact DirEntry.key_injective hmem

/-- The entry is rejected in two passes, is gone in the third and is back in the fourth. -/
theorem back_settles :
    NoteLog.Throughout ([]++[pass true true]++[pass true true]++[emptied]++[pass true true])
      fun pre p => p.SettlesActive (.after pre) := by
  simp only [NoteLog.throughout_concat]
  refine ⟨⟨⟨⟨NoteLog.throughout_nil,?_⟩,?_⟩,?_⟩,?_⟩
  · rintro e ⟨r,hr⟩ -
    simp [NoteLog.after,NoteLog.empty] at hr
  · intro e he hno
    cases holds_entry (by decide +kernel) he
    exact absurd rejects (hno reason)
  · intro e he hno
    cases holds_entry (by decide +kernel) he
    exact emptied_settles
  · intro e he hno
    have hnone : (NoteLog.after ([]++[pass true true]++[pass true true]++[emptied])).active.keys =
        [] := by
      decide +kernel
    have hmem := Std.ExtTreeMap.mem_keys.mpr he.mem
    rw [hnone] at hmem
    cases hmem

/-- The log reports the rejection in the first pass and, as it is back, in the fourth. -/
theorem new_rejection_reported_run :
    .raised (entry.note reason) ∉ (NoteLog.after [pass true true]).reports (pass true true) ∧
    .raised (entry.note reason) ∈
      (NoteLog.after [pass true true,pass true true,emptied]).reports (pass true true) := by
  have hrun := new_rejection_reported back_settles
  constructor
  · intro h
    have hiff := hrun [pass true true] (pass true true) [emptied,pass true true] rfl entry reason
    exact (hiff.mp h).2 ⟨[],pass true true,[],rfl,rejects,by simp⟩
  · have hiff := hrun [pass true true,pass true true,emptied] (pass true true) [] rfl entry reason
    refine hiff.mpr ⟨rejects,fun hlast => ?_⟩
    have hlast : LastRejected ([pass true true,pass true true]++[emptied]) entry reason := hlast
    rcases lastRejected_concat.mp hlast with hr | ⟨hdet,-⟩
    · have hno : entry.note reason ∉ emptied.observed.notes := by decide +kernel
      exact hno hr
    · exact hdet (.inr (.inl (NotePass.mem_members.mp (by decide +kernel))))

end SampleRejections
end Byssus
