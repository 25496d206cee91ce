import Byssus.Authority
import Byssus.Daemon
import Byssus.Durable
import Byssus.PassNotes
import Byssus.SyncedWatches

/-! Changes of membership directories, between any two calls of the daemon.
Memberships are read after `sync` has put the watches in place.  A later change is in the event
queue until it is drained, and then another pass is pending. -/
namespace Byssus

open Relation

variable {H I K D : Type}

/-- The entries of a directory. -/
abbrev Entries := List UInt8 → Option EntryKind

/-! ### Directories and their watches -/

/-- The membership directories and the inotify instance of the daemon. -/
structure Site (I : Type) where
  entries : I → Entries
  /-- What a directory has held since the last `sync`. -/
  held : I → Set Entries
  /-- The directory of a watch. -/
  watch : ℕ → Option I
  queue : List InotifyEvent

namespace Site

/-- The event is one of a change of the directory, or tells that events are missing. -/
def Tells (wd : ℕ) (e : InotifyEvent) : Prop :=
  e.queueOverflow = true ∨ e.wd = wd ∧ e.selfEvent = false

/-- What others do.  Events that are in the queue stay there. -/
inductive Acts [DecidableEq I] (s : Site I) : Site I → Prop
  /-- An entry is made, removed, renamed or written: each watch of the directory gets an event,
  unless the queue overflows. -/
  | change (i : I) (new : Entries) {queue' : List InotifyEvent} (hqueue : s.queue ⊆ queue')
      (htells : ∀ wd, s.watch wd = some i → ∃ e ∈ queue', Tells wd e) :
      Acts s {s with
        entries := Function.update s.entries i new
        held := Function.update s.held i (insert new (s.held i))
        queue := queue'}
  /-- The directory of a watch is removed, or what it is on is unmounted. -/
  | gone (wd : ℕ) {queue' : List InotifyEvent} (hqueue : s.queue ⊆ queue') :
      Acts s {s with watch := Function.update s.watch wd none, queue := queue'}
  | event {queue' : List InotifyEvent} (hqueue : s.queue ⊆ queue') :
      Acts s {s with queue := queue'}

/-- The directory of a watch is as it was at the last `sync`, or the queue tells of a change. -/
def Settled (s : Site I) (wd : ℕ) : Prop :=
  (∃ e ∈ s.queue, Tells wd e) ∨ ∀ i, s.watch wd = some i → s.held i = {s.entries i}

variable [DecidableEq I] {s s' : Site I}

theorem Acts.settled (h : s.Acts s') {wd : ℕ} (hs : s.Settled wd) : s'.Settled wd := by
  cases h with
  | change i new hqueue htells =>
    by_cases hi : s.watch wd = some i
    · exact .inl (htells wd hi)
    refine hs.imp (Exists.imp fun e => And.imp_left (@hqueue e)) fun hs j hj => ?_
    have hne : j ≠ i := by
      rintro rfl
      exact hi hj
    simpa [hne] using hs j hj
  | gone wd' hqueue =>
    refine hs.imp (Exists.imp fun e => And.imp_left (@hqueue e)) fun hs j hj => hs j ?_
    by_cases hwd : wd = wd'
    · subst hwd
      simp at hj
    · simpa [hwd] using hj
  | event hqueue => exact hs.imp (Exists.imp fun e => And.imp_left (@hqueue e)) id

theorem Acts.held (h : s.Acts s') (i : I) : s.held i ⊆ s'.held i := by
  cases h with
  | change j new =>
    by_cases hi : i = j
    · subst hi
      simp
    · simp [hi]
  | gone => exact subset_rfl
  | event => exact subset_rfl

end Site

/-! ### Reading a directory -/

/-- What is answered about a directory while it held these entries, one after another: an entry that
is always there is listed, and the type that is read is one that it had.  Reading it may also
fail. -/
structure ScanEnv.Shows (env : ScanEnv H) (dir : H) (held : Set Entries) : Prop where
  listed : ∀ names, env.readDir dir = .ok (names,none) →
    ∀ n, (∀ e ∈ held, (e n).isSome = true) → n ∈ names
  typed : ∀ n kind, env.statx dir n = .ok kind → ∃ e ∈ held, e n = some kind

namespace ScanEnv.Shows

variable {env : ScanEnv H} {dir : H} {held : Set Entries}

theorem mono (h : env.Shows dir held) {held' : Set Entries} (hsub : held ⊆ held') :
    env.Shows dir held' where
  listed := fun names hr n hn => h.listed names hr n fun e he => hn e (hsub he)
  typed := fun n kind hk => (h.typed n kind hk).imp fun _ => And.imp_left (@hsub _)

/-- The members that are read of a directory that does not change are in it. -/
theorem entry_of_member {entries : Entries} (h : env.Shows dir {entries}) {m : Membership}
    (hm : scanMembership env dir = .ok m) {n : Name} (hn : n ∈ m.members) :
    entries n.bytes = some (.regular 0) := by
  obtain ⟨names,-,-,hstat⟩ := scanMembership_authorises hm hn
  obtain ⟨e,he,hkind⟩ := h.typed _ _ hstat
  rwa [Set.mem_singleton_iff.mp he] at hkind

/-- What is in it is a member, or rejected where its type cannot be read. -/
theorem member_of_entry {entries : Entries} (h : env.Shows dir {entries}) {m : Membership}
    (hm : scanMembership env dir = .ok m) {n : Name} (hn : entries n.bytes = some (.regular 0)) :
    n ∈ m.members ∨ ∃ error, ⟨displayBytes n.bytes,.inaccessible error⟩ ∈ m.rejected := by
  unfold scanMembership at hm
  cases hr : env.readDir dir with
  | error e => simp [hr] at hm
  | ok r =>
    obtain ⟨names,_ | failed⟩ := r
    · have hlisted : n.bytes ∈ names := h.listed names hr _ fun e he => by
        rw [Set.mem_singleton_iff.mp he,hn]
        rfl
      have hvalid : Name.fromBytes n.bytes = .ok n := Name.fromBytes_iff.mpr rfl
      have hvisible : n.bytes.head? ≠ some dotByte := Name.fromBytes_visible hvalid
      have hfiltered : n.bytes ∈ names.filter fun n => n ≠ [dotByte] ∧ n ≠ [dotByte,dotByte] := by
        refine List.mem_filter.mpr ⟨hlisted,?_⟩
        simp only [decide_eq_true_eq]
        constructor <;> (intro hdots; exact hvisible (by rw [hdots]; rfl))
      simp only [hr,Except.ok.injEq] at hm
      obtain ⟨hmembers,hrejected,-⟩ := fromEntries_spec ((names.filter fun n =>
        n ≠ [dotByte] ∧ n ≠ [dotByte,dotByte]).map fun n =>
          (n,(env.statx dir n).mapError env.strerror))
      rw [hm] at hmembers hrejected
      cases hs : env.statx dir n.bytes with
      | error error =>
        right
        refine ⟨env.strerror error,?_⟩
        have hrejection : MembershipEntry.rejection (n.bytes,.error (env.strerror error)) =
            some ⟨displayBytes n.bytes,.inaccessible (env.strerror error)⟩ := by
          simp [MembershipEntry.rejection,MembershipEntry.hidden,classify,hvalid,hvisible]
        rw [hrejected,List.mem_filterMap]
        refine ⟨_,List.mem_map_of_mem hfiltered,?_⟩
        rw [hs]
        exact hrejection
      | ok kind =>
        left
        obtain ⟨e,he,hkind⟩ := h.typed _ _ hs
        rw [Set.mem_singleton_iff.mp he,hn] at hkind
        rw [hmembers,List.mem_map]
        refine ⟨n.bytes,hfiltered,?_⟩
        rw [hs,← Option.some.inj hkind]
        rfl
    · simp [hr] at hm

end ScanEnv.Shows

/-- A batch with such an event makes a pass pending. -/
theorem Watcher.classify_of_tells {w : Watcher} {events : List InotifyEvent} {wd : ℕ}
    (hwd : wd ∈ w.watches) {e : InotifyEvent} (he : e ∈ events) (h : Site.Tells wd e) :
    (w.classify events).membershipChanged = true ∨ (w.classify events).overflow = true := by
  have hoverflow : ∀ (c : Changes) (e : InotifyEvent), (w.classifyEvent c e).overflow = true ↔
      c.overflow = true ∨ e.queueOverflow = true := by
    intro c e
    unfold classifyEvent
    by_cases ho : e.queueOverflow = true
    · simp [ho]
    · rw [if_neg ho]
      split
      · simp [ho]
      · split_ifs <;> simp [ho]
      · split_ifs <;> simp [ho]
  by_cases ho : e.queueOverflow = true
  · right
    refine (Lists.foldl_or_iff (Q := fun c : Changes => c.overflow = true) hoverflow events
      .default).mpr (.inr ⟨e,he,ho⟩)
  · left
    obtain ⟨rfl,hself⟩ := h.resolve_left ho
    obtain ⟨what,hwhat⟩ := Option.isSome_iff_exists.mp
      (Std.ExtTreeMap.mem_iff_isSome_getElem?.mp hwd)
    refine classify_membershipChanged.mpr ⟨e,he,Bool.eq_false_iff.mpr ho,what,hwhat,fun hf => ?_⟩
    rw [hself] at hf
    cases hf

namespace Observed

theorem addMembership_members (id : GroupId) (config : GroupConfig) (out : Observed)
    (m : Membership) :
    (out.addMembership id config m).members = out.members.insert id m.members := by
  have hadd : ∀ (out : Observed) (n : Name), (addMember id config out n).members = out.members := by
    intro out n
    unfold addMember
    split <;> rfl
  unfold addMembership
  split_ifs <;> simp [Lists.foldl_frame hadd]

/-- A group whose membership is noted was scanned. -/
theorem addGroup_members (env : PassEnv H) (degraded : Finset GroupId) (out : Observed)
    (entry : GroupId × GroupRuntime H) {id : GroupId} {members : Std.ExtTreeSet Name}
    (h : (out.addGroup env degraded entry).members[id]? = some members) :
    out.members[id]? = some members ∨ entry.1 = id ∧ ∃ m,
      scanMembership env.toScanEnv entry.2.membershipDir = .ok m ∧ members = m.members := by
  unfold addGroup at h
  simp only at h
  split_ifs at h
  · exact .inl h
  · exact .inl h
  · cases hs : scanMembership env.toScanEnv entry.2.membershipDir with
    | error e =>
      rw [hs] at h
      exact .inl h
    | ok m =>
      rw [hs] at h
      simp only [addMembership_members,Std.ExtTreeMap.getElem?_insert,
        Std.LawfulEqCmp.compare_eq_iff_eq] at h
      split_ifs at h with hid
      · exact .inr ⟨hid,m,rfl,(Option.some.inj h).symm⟩
      · exact .inl h

end Observed

/-- The members that are noted were read, and what was rejected there is in the notes. -/
theorem observed_members {env : PassEnv H} {runtime : Runtime H} {state : State}
    {degraded : Degraded} {id : GroupId} {members : Std.ExtTreeSet Name}
    (h : (discoverAndObserve env runtime state degraded).2.members[id]? = some members) :
    ∃ g m, (discoverAndObserve env runtime state degraded).1.groups[id]? = some g ∧
      scanMembership env.toScanEnv g.membershipDir = .ok m ∧ members = m.members ∧
      ∀ r ∈ m.rejected,
        .rejected id r ∈ (discoverAndObserve env runtime state degraded).2.notes := by
  have hfold : ∀ (entries : List (GroupId × GroupRuntime H)) (frozen : Finset GroupId),
      (entries.foldl (Observed.addGroup env frozen) ⟨[],⟨∅,∅⟩,frozen,∅,∅,∅,[]⟩).members[id]? =
        some members → ∃ g m, (id,g) ∈ entries ∧
          scanMembership env.toScanEnv g.membershipDir = .ok m ∧ members = m.members := by
    intro entries frozen
    refine Lists.foldl_induction (P := fun (done : List (GroupId × GroupRuntime H))
      (out : Observed) => out.members[id]? = some members → ∃ g m, (id,g) ∈ done ∧
        scanMembership env.toScanEnv g.membershipDir = .ok m ∧ members = m.members) ?_ ?_ entries
    · simp
    · intro done entry out ih hout
      rcases Observed.addGroup_members env frozen out entry hout with hout | ⟨rfl,m,hm,hmembers⟩
      · obtain ⟨g,m,hg,hm⟩ := ih hout
        exact ⟨g,m,List.mem_append_left _ hg,hm⟩
      · exact ⟨entry.2,m,by simp,hm,hmembers⟩
  obtain ⟨g,m,hg,hm,hmembers⟩ := hfold _ _ h
  have hg := Std.ExtTreeMap.mem_toList_iff_getElem?_eq_some.mp hg
  refine ⟨g,m,hg,hm,hmembers,fun r hr => List.mem_append_right _ ?_⟩
  obtain ⟨hnotes,hobserved⟩ := @observe_notes H env
    (frozenBefore (runtime.discover env.toScanEnv degraded.sets).2 state degraded)
    (runtime.discover env.toScanEnv degraded.sets).1 state
  obtain ⟨hdegraded,g',hg',hread⟩ := (hobserved id).mp
    (Std.ExtTreeMap.mem_iff_isSome_getElem?.mpr (Option.isSome_of_eq_some h))
  cases hg.symm.trans hg'
  refine (hnotes _).mpr ⟨id,g,hg,?_⟩
  unfold PassEnv.Unobservable at hread
  rw [not_or] at hread
  simp only [groupNotes,if_neg hdegraded,if_neg hread.1,hm]
  exact List.mem_append_left _ (List.mem_map_of_mem hr)

/-! ### The daemon among others -/

/-- The pass that ended last. -/
def lastPass (history : List Happened) : Option Pass :=
  history.foldl (fun last h => match h with | .passed _ _ pass => some pass | _ => last) none

theorem lastPass_concat (history : List Happened) (h : Happened) :
    lastPass (history++[h]) =
      match h with | .passed _ _ pass => some pass | _ => lastPass history := by
  simp only [lastPass,List.foldl_append,List.foldl_cons,List.foldl_nil]

structure Running (I H D : Type) where
  loop : Loop H D
  site : Site I

namespace Running

section
variable [DecidableEq D] [DecidableEq I] (sys : InotifySys K) (table : K → ℕ → Option I)
  (inode : H → I)

/-- What a pass finds: before the end of `sync` anything may happen, and what is read of a group's
directory afterwards is what it has held since. -/
structure PassSees (d : Daemon H D) (a : PassAnswers H K D) (s' : Site I) : Prop where
  acts : ∃ s : Site I, (s.held = fun i => {s.entries i}) ∧
    s.watch = table (Watcher.sync sys
      (discoverAndObserve a.env d.runtime d.world.state d.degraded).1 (d.watcher,a.inotify)).2 ∧
    ReflTransGen Site.Acts s s'
  shows : ∀ (id : GroupId) (g : GroupRuntime H),
    (discoverAndObserve a.env d.runtime d.world.state d.degraded).1.groups[id]? = some g →
    a.env.Shows g.membershipDir (s'.held (inode g.membershipDir))

/-- A step of others, or an action of the loop. -/
inductive Step (w : Running I H D) : Running I H D → Prop
  | others {s' : Site I} (h : w.site.Acts s') : Step w ⟨w.loop,s'⟩
  | drain (elapsed : ℕ) : Step w
      ⟨w.loop.act sys (.inotify w.site.queue none elapsed),{w.site with queue := []}⟩
  | drainFails (events : List InotifyEvent) (e : Errno) (elapsed : ℕ) :
      Step w ⟨w.loop.act sys (.inotify events (some e) elapsed),w.site⟩
  | signal {action : LoopAction H K D}
      (h : action = .terminate ∨ action = .otherSignal ∨ action = .failed) :
      Step w ⟨w.loop.act sys action,w.site⟩
  | idle (elapsed : ℕ) (a : PassAnswers H K D)
      (h : w.loop.ended = true ∨ w.loop.daemon.duePass (w.loop.clock+elapsed) = none) :
      Step w ⟨w.loop.act sys (.due elapsed a),w.site⟩
  | due (elapsed : ℕ) (a : PassAnswers H K D) {trigger : Trigger} {s' : Site I}
      (hended : w.loop.ended = false)
      (hdue : w.loop.daemon.duePass (w.loop.clock+elapsed) = some trigger)
      (h : PassSees sys table inode w.loop.daemon a s') :
      Step w ⟨w.loop.act sys (.due elapsed a),s'⟩
  | rejected (a : ReloadAnswers H K) (p : PassAnswers H K D)
      (h : w.loop.ended = true ∨ (w.loop.daemon.reload sys a).2 = false) :
      Step w ⟨w.loop.act sys (.hangup a p),w.site⟩
  /-- There is another inotify instance then. -/
  | reloaded (a : ReloadAnswers H K) (p : PassAnswers H K D) {s' : Site I}
      (hended : w.loop.ended = false) (happlied : (w.loop.daemon.reload sys a).2 = true)
      (h : PassSees sys table inode (w.loop.daemon.reload sys a).1 p s') :
      Step w ⟨w.loop.act sys (.hangup a p),s'⟩

/-- The systems that a start of the daemon comes to. -/
inductive Reached : Running I H D → Prop
  | start (startup : Startup sys H) (world : World D) (unique : Bool) (clock : ℕ)
      (a : PassAnswers H K D) {s' : Site I}
      (h : PassSees sys table inode (Loop.initial startup world unique clock).daemon a s') :
      Reached ⟨.start startup world unique clock a,s'⟩
  | step {w w' : Running I H D} (h : Reached w) (hs : Step sys table inode w w') : Reached w'

/-! ### What is known of the last pass -/

/-- Changes since the last `sync` are seen: a pass is pending, or the queue tells of them. -/
def Seen (w : Running I H D) : Prop :=
  w.loop.ended = false → w.loop.daemon.pending = none →
    ∀ wd, wd ∈ w.loop.daemon.watcher.watches → w.site.Settled wd

/-- The memberships of the last pass were read from what the directories have held since its
`sync`, and it has noted what it rejected. -/
def Read (w : Running I H D) : Prop :=
  ∃ pass env, lastPass w.loop.history = some pass ∧
    (∀ (id : GroupId) (g : GroupRuntime H), w.loop.daemon.runtime.groups[id]? = some g →
      ScanEnv.Shows env g.membershipDir (w.site.held (inode g.membershipDir))) ∧
    ∀ (id : GroupId) members, pass.observed.members[id]? = some members → ∃ g m,
      w.loop.daemon.runtime.groups[id]? = some g ∧
      scanMembership env g.membershipDir = .ok m ∧ members = m.members ∧
      ∀ r ∈ m.rejected, .rejected id r ∈ pass.observed.notes

variable {sys} {table} {inode} {w : Running I H D}

omit [DecidableEq D] [DecidableEq I] in
theorem Read.mono (h : Read inode w) {loop : Loop H D} {s' : Site I}
    (hpass : lastPass loop.history = lastPass w.loop.history)
    (hruntime : loop.daemon.runtime = w.loop.daemon.runtime)
    (hheld : ∀ i, w.site.held i ⊆ s'.held i) : Read inode ⟨loop,s'⟩ := by
  obtain ⟨pass,env,hlast,hshows,hmembers⟩ := h
  refine ⟨pass,env,hpass.trans hlast,?_,?_⟩
  · intro id g hg
    rw [hruntime] at hg
    exact (hshows id g hg).mono (hheld _)
  · intro id members hid
    rw [hruntime]
    exact hmembers id members hid

theorem settled_of_acts {s s' : Site I} (h : ReflTransGen Site.Acts s s')
    (hs : s.held = fun i => {s.entries i}) (wd : ℕ) : s'.Settled wd := by
  induction h with
  | refl =>
    right
    intro i _
    rw [hs]
  | tail _ hacts ih => exact hacts.settled ih

/-- Whatever was known before, a pass reads everything again. -/
theorem startPass_known (l : Loop H D) (trigger : Trigger) {a : PassAnswers H K D} {s' : Site I}
    (h : PassSees sys table inode l.daemon a s') :
    Seen ⟨l.startPass sys trigger a,s'⟩ ∧ Read inode ⟨l.startPass sys trigger a,s'⟩ := by
  obtain ⟨s,hs,-,hacts⟩ := h.acts
  refine ⟨fun _ _ wd _ => settled_of_acts hacts hs wd,_,a.env.toScanEnv,lastPass_concat _ _,?_⟩
  have hruntime := (Daemon.pass_frame sys a (l.clock+a.elapsed)
    {l.daemon with pending := none}).2.2.2.1
  simp only [Loop.startPass,hruntime]
  exact ⟨h.shows,fun id members hid => observed_members hid⟩

omit [DecidableEq D] [DecidableEq I] in
/-- A loop that has ended needs to see no more. -/
theorem seen_of_ended {loop : Loop H D} {s' : Site I} (h : loop.ended = true) :
    Seen ⟨loop,s'⟩ := by
  intro hended
  rw [h] at hended
  cases hended

omit [DecidableEq D] [DecidableEq I] in
/-- A drain makes a pass pending if there is anything to see. -/
theorem Seen.drain (h : Seen w) (hended : w.loop.ended = false) {daemon : Daemon H D}
    {changes : Changes} {clock : ℕ} {history : List Happened}
    (hd : w.loop.daemon.handleInotify w.site.queue none clock = .ok (daemon,changes)) :
    Seen ⟨{w.loop with daemon := daemon, clock := clock, history := history},
      {w.site with queue := []}⟩ := by
  intro _ hpending wd hwd
  obtain ⟨watcher,hdrain,hdaemon⟩ := Daemon.handleInotify_ok hd
  simp only [hdaemon] at hpending hwd
  cases hc : changes.membershipChanged || changes.overflow with
  | true =>
    rw [hc] at hpending
    cases hpending
  | false =>
    rw [hc] at hpending hwd
    cases hdrain
    have hwatched : wd ∈ w.loop.daemon.watcher.watches := Std.ExtTreeMap.mem_of_mem_filter hwd
    rcases h hended hpending wd hwatched with ⟨e,he,htells⟩ | hheld
    · rw [Bool.or_eq_false_iff] at hc
      exact absurd (Watcher.classify_of_tells hwatched he htells) (by simp [hc.1,hc.2])
    · exact .inr hheld

theorem Step.known {w' : Running I H D} (hs : Step sys table inode w w') (hseen : Seen w)
    (hread : Read inode w) : Seen w' ∧ Read inode w' := by
  have hsame : ∀ {loop : Loop H D}, loop = w.loop →
      Seen ⟨loop,w.site⟩ ∧ Read inode ⟨loop,w.site⟩ := by
    rintro _ rfl
    exact ⟨hseen,hread⟩
  cases hs with
  | others h =>
    exact ⟨fun hended hpending wd hwd => h.settled (hseen hended hpending wd hwd),
      hread.mono rfl rfl h.held⟩
  | drain elapsed =>
    by_cases hended : w.loop.ended = true
    · simp only [Loop.act,if_pos hended]
      exact ⟨seen_of_ended hended,hread.mono rfl rfl fun _ => subset_rfl⟩
    · simp only [Loop.act,if_neg hended]
      cases hd : w.loop.daemon.handleInotify w.site.queue none (w.loop.clock+elapsed) with
      | error e => exact ⟨seen_of_ended rfl,hread.mono rfl rfl fun _ => subset_rfl⟩
      | ok r =>
        obtain ⟨watcher,-,hdaemon⟩ := Daemon.handleInotify_ok hd
        have hruntime : r.1.runtime = w.loop.daemon.runtime := by
          rw [hdaemon]
          split_ifs <;> rfl
        exact ⟨hseen.drain (Bool.eq_false_iff.mpr hended) hd,
          hread.mono (lastPass_concat _ _) hruntime fun _ => subset_rfl⟩
  | drainFails events e elapsed =>
    by_cases hended : w.loop.ended = true
    · exact hsame (if_pos hended)
    · have hd : w.loop.daemon.handleInotify events (some e) (w.loop.clock+elapsed) = .error e := rfl
      simp only [Loop.act,if_neg hended,hd]
      exact ⟨seen_of_ended rfl,hread.mono rfl rfl fun _ => subset_rfl⟩
  | signal h =>
    rcases h with rfl | rfl | rfl
    · exact ⟨seen_of_ended rfl,hread.mono rfl rfl fun _ => subset_rfl⟩
    · exact hsame rfl
    · exact ⟨seen_of_ended rfl,hread.mono rfl rfl fun _ => subset_rfl⟩
  | idle elapsed a h =>
    by_cases hended : w.loop.ended = true
    · exact hsame (if_pos hended)
    · have hdue := h.resolve_left hended
      simp only [Loop.act,if_neg hended,hdue]
      exact ⟨hseen,hread.mono rfl rfl fun _ => subset_rfl⟩
  | due elapsed a hended hdue h =>
    have hno : ¬w.loop.ended = true := Bool.eq_false_iff.mp hended
    simp only [Loop.act,if_neg hno,hdue]
    exact startPass_known {w.loop with clock := w.loop.clock+elapsed} _ h
  | rejected a p h =>
    by_cases hended : w.loop.ended = true
    · exact hsame (if_pos hended)
    · have hreload := h.resolve_left hended
      simp only [Loop.act,if_neg hended,hreload,Bool.false_eq_true,if_false]
      rcases Daemon.reload_cases sys a w.loop.daemon with ⟨e,he⟩ | ⟨loaded,runtime,watcher,-,-,-,he⟩
      · rw [he]
        exact ⟨hseen,hread.mono (lastPass_concat _ _) rfl fun _ => subset_rfl⟩
      · rw [he] at hreload
        cases hreload
  | reloaded a p hended happlied h =>
    have hno : ¬w.loop.ended = true := Bool.eq_false_iff.mp hended
    simp only [Loop.act,if_neg hno,happlied,if_true]
    exact startPass_known _ _ h

theorem Reached.known (h : Reached sys table inode w) : Seen w ∧ Read inode w := by
  induction h with
  | start startup world unique clock a h => exact startPass_known _ _ h
  | step _ hs ih => exact hs.known ih.1 ih.2

/-- No member is missed: when nothing is pending, the members that the last pass has read of a group
whose directory is watched are those that the directory holds, but for entries that it has rejected
because their type could not be read. -/
theorem members_current (h : Reached sys table inode w) (hended : w.loop.ended = false)
    (hpending : w.loop.daemon.pending = none) (hqueue : w.site.queue = []) :
    ∃ pass, lastPass w.loop.history = some pass ∧
      ∀ (id : GroupId) members, pass.observed.members[id]? = some members → ∃ g,
        w.loop.daemon.runtime.groups[id]? = some g ∧
        ∀ wd, wd ∈ w.loop.daemon.watcher.watches → w.site.watch wd = some (inode g.membershipDir) →
          (∀ n ∈ members, w.site.entries (inode g.membershipDir) n.bytes = some (.regular 0)) ∧
          ∀ n : Name, w.site.entries (inode g.membershipDir) n.bytes = some (.regular 0) →
            n ∈ members ∨ ∃ error,
              .rejected id ⟨displayBytes n.bytes,.inaccessible error⟩ ∈ pass.observed.notes := by
  obtain ⟨hseen,pass,env,hlast,hshows,hmembers⟩ := h.known
  refine ⟨pass,hlast,fun id members hid => ?_⟩
  obtain ⟨g,m,hg,hscan,rfl,hrejected⟩ := hmembers id members hid
  refine ⟨g,hg,fun wd hwd hwatch => ?_⟩
  have hheld : w.site.held (inode g.membershipDir) = {w.site.entries (inode g.membershipDir)} := by
    rcases hseen hended hpending wd hwd with ⟨e,he,-⟩ | hheld
    · rw [hqueue] at he
      cases he
    · exact hheld _ hwatch
  have hshow := hshows id g hg
  rw [hheld] at hshow
  refine ⟨fun n hn => hshow.entry_of_member hscan hn,fun n hn => ?_⟩
  exact (hshow.member_of_entry hscan hn).imp_right (Exists.imp fun error => hrejected _)

end

/-! The directory of a group holds one member when the daemon starts.  An application adds two
others; the type of one of them cannot be read. -/
namespace SampleSite
open SampleLife (startup answers passEnv sys)

def first : List UInt8 := SampleStateFile.member.bytes
def second : List UInt8 := [98]
def third : List UInt8 := [99]

def entries (names : List (List UInt8)) : Entries := fun n =>
  if names.contains n then some (.regular 0) else none

def siteEnv (names : List (List UInt8)) : PassEnv ℕ := {passEnv with
  readDir := fun _ => .ok (names,none)
  statx := fun _ n => if names.contains n ∧ n ≠ third then .ok (.regular 0) else .error (.other 5)
  strerror := fun _ => "Input/output error (os error 5)"}

def watched (wd : ℕ) : Option ℕ := if wd = 0 then some 0 else none

def site (names : List (List UInt8)) : Site ℕ :=
  ⟨fun _ => entries names,fun _ => {entries names},watched,[]⟩

def siteAnswers (names : List (List UInt8)) : PassAnswers ℕ ℕ Unit :=
  {answers with env := siteEnv names}

def world : World Unit := ⟨fun _ => [],.empty,.empty,[]⟩

/-- The event of the new entries. -/
def created : InotifyEvent := ⟨0,false,false,false,false,false⟩

def changed : Site ℕ := {site [first] with
  entries := Function.update (site [first]).entries 0 (entries [first,second,third])
  held := Function.update (site [first]).held 0
    (insert (entries [first,second,third]) ((site [first]).held 0))
  queue := [created]}

def started : Running ℕ ℕ Unit := ⟨.start startup world true 0 (siteAnswers [first]),site [first]⟩

def drained : Running ℕ ℕ Unit :=
  ⟨started.loop.act sys (.inotify [created] none 1),{changed with queue := []}⟩

def passed : Running ℕ ℕ Unit :=
  ⟨drained.loop.act sys (.due 200000000 (siteAnswers [first,second,third])),
    site [first,second,third]⟩

theorem shows (names : List (List UInt8)) (dir : ℕ) :
    (siteEnv names).Shows dir {entries names} where
  listed := by
    intro listed hr n hn
    cases hr
    have hsome := hn (entries names) rfl
    by_cases hname : n ∈ names
    · exact hname
    · simp [entries,hname] at hsome
  typed := by
    intro n kind hk
    refine ⟨entries names,rfl,?_⟩
    simp only [siteEnv] at hk
    split_ifs at hk with hname
    cases hk
    exact if_pos hname.1

theorem sees (d : Daemon ℕ Unit) (names : List (List UInt8)) :
    PassSees sys (fun _ => watched) id d (siteAnswers names) (site names) where
  acts := ⟨site names,rfl,rfl,.refl⟩
  shows := fun _ g _ => shows names g.membershipDir

theorem reached : Reached sys (fun _ => watched) id passed := by
  have hstarted : Reached sys (fun _ => watched) id started :=
    .start startup world true 0 (siteAnswers [first]) (sees _ _)
  have hchanged : (site [first]).Acts changed := by
    refine .change 0 _ (List.nil_subset _) fun wd hwd => ⟨created,List.mem_singleton_self _,?_⟩
    refine .inr ⟨?_,rfl⟩
    by_contra hne
    have hnone : watched wd = none := if_neg fun h => hne h.symm
    rw [show (site [first]).watch wd = watched wd from rfl,hnone] at hwd
    cases hwd
  have hdrained : Reached sys (fun _ => watched) id drained :=
    .step (.step hstarted (.others hchanged)) (.drain 1)
  have hended : drained.loop.ended = false := by decide +kernel
  have hdue : drained.loop.daemon.duePass (drained.loop.clock+200000000) = some .inotify := by
    decide +kernel
  exact .step hdrained (.due 200000000 _ hended hdue (sees _ _))

theorem members_current_run :
    (lastPass passed.loop.history).map (fun pass =>
      pass.observed.members.toList.map fun g => g.2.toList.map Name.bytes) =
        some [[second,first]] ∧
    ∃ pass, lastPass passed.loop.history = some pass ∧
      ∀ (id : GroupId) members, pass.observed.members[id]? = some members → ∃ g,
        passed.loop.daemon.runtime.groups[id]? = some g ∧
        ∀ wd, wd ∈ passed.loop.daemon.watcher.watches → watched wd = some g.membershipDir →
          (∀ n ∈ members, entries [first,second,third] n.bytes = some (.regular 0)) ∧
          ∀ n : Name, entries [first,second,third] n.bytes = some (.regular 0) →
            n ∈ members ∨ ∃ error,
              .rejected id ⟨displayBytes n.bytes,.inaccessible error⟩ ∈ pass.observed.notes :=
  ⟨by decide +kernel,members_current reached (by decide +kernel) (by decide +kernel) rfl⟩

end SampleSite
end Running

end Byssus
