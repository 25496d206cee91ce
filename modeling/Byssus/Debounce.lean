import Mathlib.Data.List.Pairwise
import Byssus.Daemon
import Byssus.LostGroups

/-! The quiet period of the event loop.
A change that was drained stays pending until a pass starts.  The pending entry is a function
of the drains since the last pass, and a pass that is not due by that entry can only be a
resync. -/
namespace Byssus

open Lists

variable {H K D : Type} {sys : InotifySys K}

/-- The drain reports that membership changed, or that it may have. -/
def Changes.isChange (c : Changes) : Bool := c.membershipChanged || c.overflow

/-- The times of the drains since the last pass that report a change. -/
def Happened.extend (since : List ℕ) : Happened → List ℕ
  | .drained time c => if c.isChange then since++[time] else since
  | .passed _ _ _ => []
  | .reloaded _ => since

def burst (history : List Happened) : List ℕ := history.foldl Happened.extend []

/-- The times of all drains that report a change. -/
def changeTimes (history : List Happened) : List ℕ :=
  history.filterMap fun
    | .drained time c => if c.isChange then some time else none
    | _ => none

/-- The entry that the drains of a burst leave. -/
def pendingOf : List ℕ → Option (ℕ × ℕ)
  | [] => none
  | first::rest => some (first,min ((first::rest).getLast (by simp)+debounce) (first+maxDebounce))

@[simp] theorem burst_nil : burst [] = [] := rfl

@[simp] theorem burst_concat (history : List Happened) (x : Happened) :
    burst (history++[x]) = x.extend (burst history) := by
  simp [burst]

@[simp] theorem changeTimes_concat (history : List Happened) (x : Happened) :
    changeTimes (history++[x]) = changeTimes history++changeTimes [x] := by
  simp [changeTimes]

theorem pendingOf_concat (since : List ℕ) (now : ℕ) :
    pendingOf (since++[now]) = some (((pendingOf since).map Prod.fst).getD now,
      min (now+debounce) (((pendingOf since).map Prod.fst).getD now+maxDebounce)) := by
  cases since with
  | nil => rfl
  | cons first rest => simp [pendingOf]

/-- When things happened, and what is pending and due. -/
structure Loop.Timed (l : Loop H D) : Prop where
  pending : l.daemon.pending = pendingOf (burst l.history)
  past : ∀ t ∈ changeTimes l.history, t ≤ l.clock
  ordered : (changeTimes l.history).Pairwise (· ≤ ·)
  suffix : burst l.history <:+ changeTimes l.history
  older : ∀ t ∈ changeTimes l.history, t ∈ burst l.history ∨
    ∀ r, l.daemon.nextResync = some r → t+maxDebounce ≤ r
  interval : l.daemon.config.daemon.Resyncs

namespace Loop

/-- A reload, or a drain without changes, leaves what is pending and due. -/
theorem Timed.kept {l : Loop H D} (h : l.Timed) {d : Daemon H D} {clock : ℕ} {x : Happened}
    (hchanges : changeTimes [x] = []) (hburst : x.extend (burst l.history) = burst l.history)
    (hclock : l.clock ≤ clock) (hpending : d.pending = l.daemon.pending)
    (hresync : d.nextResync = l.daemon.nextResync) (hconfig : d.config.daemon.Resyncs) :
    (Loop.mk d clock (l.history++[x]) l.ended).Timed := by
  have hc : changeTimes (l.history++[x]) = changeTimes l.history := by
    rw [changeTimes_concat,hchanges,List.append_nil]
  have hb : burst (l.history++[x]) = burst l.history := (burst_concat _ _).trans hburst
  constructor
  · rw [hb]
    exact hpending.trans h.pending
  · rw [hc]
    exact fun t ht => (h.past t ht).trans hclock
  · rw [hc]
    exact h.ordered
  · rw [hb,hc]
    exact h.suffix
  · rw [hb,hc]
    show ∀ t ∈ changeTimes l.history, _ ∨ ∀ r, d.nextResync = some r → _
    rw [hresync]
    exact h.older
  · exact hconfig

/-- A drain with changes extends the burst. -/
theorem Timed.changed {l : Loop H D} (h : l.Timed) {d : Daemon H D} {clock : ℕ} {c : Changes}
    (hc : c.isChange = true) (hclock : l.clock ≤ clock)
    (hpending : d.pending = some ((l.daemon.pending.map Prod.fst).getD clock,
      min (clock+debounce) ((l.daemon.pending.map Prod.fst).getD clock+maxDebounce)))
    (hresync : d.nextResync = l.daemon.nextResync) (hconfig : d.config.daemon.Resyncs) :
    (Loop.mk d clock (l.history++[.drained clock c]) l.ended).Timed := by
  have hchanges : changeTimes (l.history++[.drained clock c]) = changeTimes l.history++[clock] := by
    simp [changeTimes,hc]
  have hburst : burst (l.history++[.drained clock c]) = burst l.history++[clock] := by
    simp [Happened.extend,hc]
  have hpast : ∀ t ∈ changeTimes l.history, t ≤ clock := fun t ht => (h.past t ht).trans hclock
  constructor
  · rw [hburst,pendingOf_concat,← h.pending]
    exact hpending
  · intro t ht
    rw [hchanges,List.mem_append,List.mem_singleton] at ht
    rcases ht with ht | rfl
    · exact hpast t ht
    · exact le_rfl
  · rw [hchanges,List.pairwise_append]
    exact ⟨h.ordered,by simp,by simpa using hpast⟩
  · rw [hburst,hchanges]
    obtain ⟨front,hfront⟩ := h.suffix
    exact ⟨front,by rw [← List.append_assoc,hfront]⟩
  · intro t ht
    rw [hchanges,List.mem_append,List.mem_singleton] at ht
    rw [hburst,List.mem_append,List.mem_singleton]
    show _ ∨ ∀ r, d.nextResync = some r → _
    rw [hresync]
    rcases ht with ht | ht
    · rcases h.older t ht with ho | ho
      · exact .inl (.inl ho)
      · exact .inr ho
    · exact .inl (.inr ht)
  · exact hconfig

theorem reload_timed {l : Loop H D} {a : ReloadAnswers H K} (h : l.Timed) :
    (Loop.mk (l.daemon.reload sys a).1 (l.clock+a.elapsed)
      (l.history++[.reloaded (l.daemon.reload sys a).2]) l.ended).Timed := by
  rcases Daemon.reload_cases sys a l.daemon with ⟨e,hr⟩ | ⟨loaded,_,_,hload,-,-,hr⟩ <;> rw [hr]
  · exact h.kept rfl rfl (Nat.le_add_right _ _) rfl rfl h.interval
  · exact h.kept rfl rfl (Nat.le_add_right _ _) rfl rfl (load_resyncs hload)

theorem drained_timed {l : Loop H D} {d : Daemon H D} {events : List InotifyEvent}
    {failed : Option Errno} {elapsed : ℕ} {changes : Changes} (h : l.Timed)
    (hd : l.daemon.handleInotify events failed (l.clock+elapsed) = .ok (d,changes)) :
    (Loop.mk d (l.clock+elapsed) (l.history++[.drained (l.clock+elapsed) changes])
      l.ended).Timed := by
  obtain ⟨watcher,-,rfl⟩ := Daemon.handleInotify_ok hd
  by_cases hc : changes.isChange = true
  · rw [if_pos (show (changes.membershipChanged || changes.overflow) = true from hc)]
    exact h.changed hc (Nat.le_add_right _ _) rfl rfl h.interval
  · rw [if_neg (show ¬(changes.membershipChanged || changes.overflow) = true from hc)]
    have hchanges : changeTimes [.drained (l.clock+elapsed) changes] = [] := by
      simp [changeTimes,hc]
    have hburst : (Happened.drained (l.clock+elapsed) changes).extend (burst l.history) =
        burst l.history := by
      simp [Happened.extend,hc]
    exact h.kept hchanges hburst (Nat.le_add_right _ _) rfl rfl h.interval

variable [DecidableEq D]

theorem startPass_timed {l : Loop H D} {trigger : Trigger} {a : PassAnswers H K D} (h : l.Timed) :
    (l.startPass sys trigger a).Timed := by
  obtain ⟨hpending,hconfig,-,-,-,-,hresync⟩ := Daemon.pass_frame sys a (l.clock+a.elapsed)
    {l.daemon with pending := none}
  have hchanges : changeTimes (l.startPass sys trigger a).history = changeTimes l.history := by
    simp [startPass,changeTimes]
  have hburst : burst (l.startPass sys trigger a).history = [] := by
    simp [startPass,Happened.extend]
  constructor
  · rw [hburst]
    exact hpending
  · intro t ht
    rw [hchanges] at ht
    have := h.past t ht
    show t ≤ l.clock+a.elapsed
    omega
  · rw [hchanges]
    exact h.ordered
  · rw [hburst]
    exact List.nil_suffix
  · intro t ht
    rw [hchanges] at ht
    right
    intro r hr
    have hpast := h.past t ht
    have hr' : ∃ s, l.daemon.config.daemon.resyncInterval = some s ∧
        l.clock+a.elapsed+s*nanosPerSec = r := by
      rw [show (l.startPass sys trigger a).daemon.nextResync = _ from hresync] at hr
      exact Option.map_eq_some_iff.mp hr
    obtain ⟨s,hs,rfl⟩ := hr'
    have hone := h.interval s hs
    unfold maxDebounce nanosPerSec
    omega
  · show DaemonConfig.Resyncs _
    rw [show (l.startPass sys trigger a).daemon.config = _ from hconfig]
    exact h.interval

theorem Small.timed {l l' : Loop H D} (h : l.Timed) (hs : Small sys anyPass l l') : l'.Timed := by
  cases hs with
  | wait elapsed ended =>
    exact ⟨h.pending,fun t ht => (h.past t ht).trans (Nat.le_add_right _ _),h.ordered,h.suffix,
      h.older,h.interval⟩
  | reload a => exact reload_timed h
  | drain hd => exact drained_timed h hd
  | pass trigger a _ => exact startPass_timed h

theorem start_timed (startup : Startup sys H) (world : World D) (unique : Bool) (clock : ℕ)
    (a : PassAnswers H K D) : (start startup world unique clock a).Timed := by
  apply startPass_timed
  exact ⟨rfl,by simp [changeTimes,initial],by simp [changeTimes,initial],List.nil_suffix,
    by simp [changeTimes,initial],load_resyncs startup.load_eq⟩

theorem run_timed (startup : Startup sys H) (world : World D) (unique : Bool) (clock : ℕ)
    (a : PassAnswers H K D) (actions : List (LoopAction H K D)) :
    ((start startup world unique clock a).run sys actions).Timed :=
  run_induction (start_timed startup world unique clock a) (fun _ _ h hs => hs.timed h) actions

end Loop

/-! ### No change is forgotten -/

/-- When the action drains events that `drain` reports a change for. -/
def Loop.changeAt (l : Loop H D) : LoopAction H K D → Option ℕ
  | .inotify events failed elapsed =>
    match l.daemon.watcher.drain events failed with
    | .ok (changes,_) => if l.ended = false ∧ changes.isChange then some (l.clock+elapsed) else none
    | .error _ => none
  | _ => none

/-- When the pass starts, if it is one. -/
def Happened.start? : Happened → Option ℕ
  | .passed _ start _ => some start
  | _ => none

/-- What is pending for changes that were drained at these times. -/
def DueSoon : List ℕ → Option (ℕ × ℕ) → Prop
  | [],pending => pending = none
  | first::rest,pending => ∃ due, pending = some (first,due) ∧
      due ≤ (first::rest).getLast (by simp)+debounce ∧ due ≤ first+maxDebounce

namespace Loop

/-- What an action adds to the history of `l`. -/
structure Adds (l : Loop H D) (action : LoopAction H K D) (added : List Happened) : Prop where
  changes : changeTimes added = (l.changeAt action).toList
  later : ∀ t ∈ added.filterMap Happened.start?, l.clock ≤ t
  since : ∀ since, added.foldl Happened.extend since =
    if added.filterMap Happened.start? = [] then since++(l.changeAt action).toList else []

theorem Adds.nothing {l : Loop H D} {action : LoopAction H K D} (h : l.changeAt action = none) :
    l.Adds action [] :=
  ⟨by simp [changeTimes,h],by simp,by simp [h]⟩

theorem Adds.passed {l : Loop H D} {action : LoopAction H K D} (h : l.changeAt action = none)
    {trigger : Trigger} {elapsed : ℕ} {pass : Pass} {before : List Happened}
    (hb : ∀ x ∈ before, ∃ applied, x = .reloaded applied) :
    l.Adds action (before++[.passed trigger (l.clock+elapsed) pass]) where
  changes := by
    rw [h,changeTimes_concat]
    have hnone : changeTimes before = [] := by
      refine List.filterMap_eq_nil_iff.mpr fun x hx => ?_
      obtain ⟨applied,rfl⟩ := hb x hx
      rfl
    rw [hnone]
    rfl
  later := by
    intro t ht
    obtain ⟨x,hx,hxt⟩ := List.mem_filterMap.mp ht
    rcases List.mem_append.mp hx with hx | hx
    · obtain ⟨applied,rfl⟩ := hb x hx
      cases hxt
    · rw [List.mem_singleton.mp hx] at hxt
      cases hxt
      exact Nat.le_add_right _ _
  since := by
    intro since
    simp [Happened.extend,Happened.start?]

theorem Adds.reloaded {l : Loop H D} {action : LoopAction H K D} (h : l.changeAt action = none)
    (applied : Bool) : l.Adds action [.reloaded applied] :=
  ⟨by simp [changeTimes,h],by simp [Happened.start?],by simp [Happened.extend,Happened.start?,h]⟩

theorem Adds.drained {l : Loop H D} {events : List InotifyEvent} {failed : Option Errno}
    {elapsed : ℕ} {changes : Changes} {watcher : Watcher} (he : l.ended = false)
    (hd : l.daemon.watcher.drain events failed = .ok (changes,watcher)) :
    l.Adds (.inotify events failed elapsed : LoopAction H K D)
      [.drained (l.clock+elapsed) changes] := by
  have hat : l.changeAt (.inotify events failed elapsed : LoopAction H K D) =
      if changes.isChange then some (l.clock+elapsed) else none := by
    simp [changeAt,hd,he]
  by_cases hc : changes.isChange = true
  · rw [if_pos hc] at hat
    exact ⟨by simp [changeTimes,hat,hc],by simp [Happened.start?],
      by simp [Happened.extend,Happened.start?,hat,hc]⟩
  · rw [if_neg hc] at hat
    exact ⟨by simp [changeTimes,hat,hc],by simp [Happened.start?],
      by simp [Happened.extend,Happened.start?,hat,hc]⟩

end Loop

section
variable [DecidableEq D]

/-- When the passes of an action start. -/
def Loop.passStarts (sys : InotifySys K) (l : Loop H D) (action : LoopAction H K D) : List ℕ :=
  ((l.act sys action).history.drop l.history.length).filterMap Happened.start?

/-- When the actions drain changes, in a run from `l`. -/
def Loop.changes (sys : InotifySys K) (l : Loop H D) (actions : List (LoopAction H K D)) : List ℕ :=
  (actions.foldl (fun acc action =>
    (acc.1.act sys action,acc.2++(acc.1.changeAt action).toList)) (l,[])).2

/-- The same since the last pass. -/
def Loop.changesSince (sys : InotifySys K) (l : Loop H D) (actions : List (LoopAction H K D)) :
    List ℕ :=
  (actions.foldl (fun acc action => (acc.1.act sys action,
    if acc.1.passStarts sys action = [] then acc.2++(acc.1.changeAt action).toList else [])) (l,[])).2

namespace Loop

theorem run_concat (l : Loop H D) (actions : List (LoopAction H K D)) (action : LoopAction H K D) :
    l.run sys (actions++[action]) = (l.run sys actions).act sys action := by
  simp [run]

theorem changes_concat (l : Loop H D) (actions : List (LoopAction H K D))
    (action : LoopAction H K D) : l.changes sys (actions++[action]) =
      l.changes sys actions++((l.run sys actions).changeAt action).toList := by
  have hrun : ∀ acc : Loop H D × List ℕ, (actions.foldl (fun acc action =>
      (acc.1.act sys action,acc.2++(acc.1.changeAt action).toList)) acc).1 = acc.1.run sys actions :=
    fun acc => (List.foldl_hom Prod.fst fun _ _ => rfl).symm
  simp only [changes,List.foldl_append,List.foldl_cons,List.foldl_nil,hrun]

theorem changesSince_concat (l : Loop H D) (actions : List (LoopAction H K D))
    (action : LoopAction H K D) : l.changesSince sys (actions++[action]) =
      if (l.run sys actions).passStarts sys action = [] then
        l.changesSince sys actions++((l.run sys actions).changeAt action).toList else [] := by
  have hrun : ∀ acc : Loop H D × List ℕ, (actions.foldl (fun acc action => (acc.1.act sys action,
      if acc.1.passStarts sys action = [] then acc.2++(acc.1.changeAt action).toList else [])) acc).1 =
        acc.1.run sys actions :=
    fun acc => (List.foldl_hom Prod.fst fun _ _ => rfl).symm
  simp only [changesSince,List.foldl_append,List.foldl_cons,List.foldl_nil,hrun]

theorem act_history (sys : InotifySys K) (l : Loop H D) (action : LoopAction H K D) :
    ∃ added, (l.act sys action).history = l.history++added ∧ l.Adds action added := by
  have hkept : ∀ l' : Loop H D, l'.history = l.history → l.changeAt action = none →
      ∃ added, l'.history = l.history++added ∧ l.Adds action added :=
    fun l' hl h => ⟨[],by rw [hl,List.append_nil],.nothing h⟩
  by_cases he : l.ended = true
  · refine hkept _ (by cases action <;> simp [act,he]) ?_
    cases action with
    | inotify events failed elapsed =>
      simp only [changeAt]
      split <;> simp [he]
    | hangup a p => rfl
    | terminate => rfl
    | otherSignal => rfl
    | due elapsed p => rfl
    | failed => rfl
  cases action with
  | terminate => exact hkept _ rfl rfl
  | otherSignal => exact hkept _ rfl rfl
  | failed => exact hkept _ rfl rfl
  | hangup a p =>
    simp only [act,if_neg he]
    split_ifs with happlied
    · exact ⟨_,List.append_assoc _ _ _,.passed rfl fun x hx => ⟨_,List.mem_singleton.mp hx⟩⟩
    · exact ⟨_,rfl,.reloaded rfl _⟩
  | inotify events failed elapsed =>
    simp only [act,if_neg he]
    cases hd : l.daemon.handleInotify events failed (l.clock+elapsed) with
    | error e =>
      refine hkept _ rfl ?_
      unfold Daemon.handleInotify at hd
      cases hw : l.daemon.watcher.drain events failed with
      | error e' => simp [changeAt,hw]
      | ok r =>
        rw [hw] at hd
        cases hd
    | ok r =>
      obtain ⟨watcher,hw,-⟩ := Daemon.handleInotify_ok hd
      exact ⟨_,rfl,.drained (Bool.eq_false_iff.mpr he) hw⟩
  | due elapsed p =>
    simp only [act,if_neg he]
    cases l.daemon.duePass (l.clock+elapsed) with
    | none => exact hkept _ rfl rfl
    | some trigger => exact ⟨[]++[_],rfl,.passed rfl (by simp)⟩

theorem passStarts_eq {l : Loop H D} {action : LoopAction H K D} {added : List Happened}
    (h : (l.act sys action).history = l.history++added) :
    l.passStarts sys action = added.filterMap Happened.start? := by
  rw [passStarts,h,List.drop_left]

variable {l : Loop H D}

/-- The history tells of just these changes. -/
theorem changeTimes_run (h : changeTimes l.history = []) (actions : List (LoopAction H K D)) :
    changeTimes (l.run sys actions).history = l.changes sys actions := by
  induction actions using List.reverseRecOn with
  | nil => exact h
  | append_singleton actions action ih =>
    obtain ⟨added,hadded,hadds⟩ := act_history sys (l.run sys actions) action
    rw [run_concat,changes_concat,hadded,← hadds.changes,← ih]
    simp [changeTimes]

theorem burst_run (h : burst l.history = []) (actions : List (LoopAction H K D)) :
    burst (l.run sys actions).history = l.changesSince sys actions := by
  induction actions using List.reverseRecOn with
  | nil => exact h
  | append_singleton actions action ih =>
    obtain ⟨added,hadded,hadds⟩ := act_history sys (l.run sys actions) action
    rw [run_concat,changesSince_concat,hadded,passStarts_eq hadded,← ih,← hadds.since]
    simp [burst]

end Loop

/-- In every run, from a drain that reports a change until the next pass starts, a pass is
pending that is due soon enough; and every pass starts after the drains before it. -/
theorem drained_changes_pending (startup : Startup sys H) (world : World D) (unique : Bool)
    (clock : ℕ) (a : PassAnswers H K D) (actions : List (LoopAction H K D)) :
    let start := Loop.start startup world unique clock a
    DueSoon (start.changesSince sys actions) (start.run sys actions).daemon.pending ∧
      Everywhere (fun before action => ∀ t ∈ (start.run sys before).passStarts sys action,
        ∀ t' ∈ start.changes sys before, t' ≤ t) actions := by
  intro start
  have htimed := Loop.run_timed startup world unique clock a
  constructor
  · rw [(htimed actions).pending,Loop.burst_run rfl]
    cases start.changesSince sys actions with
    | nil => rfl
    | cons first rest => exact ⟨_,rfl,min_le_left _ _,min_le_right _ _⟩
  · intro i action haction t ht t' ht'
    obtain ⟨added,hadded,hadds⟩ := Loop.act_history sys (start.run sys (actions.take i)) action
    rw [Loop.passStarts_eq hadded] at ht
    rw [← Loop.changeTimes_run rfl] at ht'
    exact ((htimed _).past t' ht').trans (hadds.later t ht)

end

/-! ### The quiet period -/

/-- A pass that is not one of the startup or of a reload starts after the quiet period. -/
def Happened.Quiet (before : List Happened) : Happened → Prop
  | .passed trigger start _ => trigger = .startup ∨ trigger = .reload ∨
      (∀ t ∈ changeTimes before, t+debounce ≤ start) ∨
      ∃ first, (burst before).head? = some first ∧ first+maxDebounce ≤ start
  | _ => True

/-- A wake-up that ends when the resync is due and a pending pass is not due yet. -/
def Loop.EndsEarly (l : Loop H D) : LoopAction H K D → Prop
  | .due elapsed _ => l.ended = false ∧
      (∃ first due, l.daemon.pending = some (first,due) ∧ l.clock+elapsed < due) ∧
      ∃ r, l.daemon.nextResync = some r ∧ r ≤ l.clock+elapsed
  | _ => False

/-- The latest change is the last of the burst. -/
theorem Loop.Timed.le_last {l : Loop H D} (h : l.Timed) {first : ℕ} {rest : List ℕ}
    (hb : burst l.history = first::rest) {t : ℕ} (ht : t ∈ changeTimes l.history) :
    t ≤ (first::rest).getLast (by simp) := by
  obtain ⟨front,hfront⟩ := h.suffix
  have hall := h.ordered
  rw [hb] at hfront
  rw [← hfront] at hall ht
  have hlast : (front++first::rest).getLast (by simp) = (first::rest).getLast (by simp) :=
    List.getLast_append_of_ne_nil _ (by simp)
  rw [← hlast]
  exact hall.rel_getLast ht

/-- A pass for a pending entry that is due respects the quiet period. -/
theorem Loop.Timed.quiet_of_due {l : Loop H D} (h : l.Timed) {first due now : ℕ}
    (hp : l.daemon.pending = some (first,due)) (hdue : due ≤ now) {trigger : Trigger} {p : Pass} :
    (Happened.passed trigger now p).Quiet l.history := by
  right; right
  rw [h.pending] at hp
  cases hb : burst l.history with
  | nil =>
    rw [hb] at hp
    cases hp
  | cons t rest =>
    rw [hb] at hp
    cases hp
    rcases min_le_iff.mp hdue with hlast | hfirst
    · left
      intro t ht
      have := h.le_last hb ht
      omega
    · exact .inr ⟨first,rfl,hfirst⟩

/-- A resync that is due with nothing pending respects the quiet period. -/
theorem Loop.Timed.quiet_of_resync {l : Loop H D} (h : l.Timed) {r now : ℕ}
    (hp : l.daemon.pending = none) (hr : l.daemon.nextResync = some r) (hdue : r ≤ now)
    {trigger : Trigger} {p : Pass} : (Happened.passed trigger now p).Quiet l.history := by
  right; right; left
  intro t ht
  have hb : burst l.history = [] := by
    rw [h.pending] at hp
    cases hb : burst l.history with
    | nil => rfl
    | cons t rest =>
      rw [hb] at hp
      cases hp
  rcases h.older t ht with ho | ho
  · rw [hb] at ho
    cases ho
  · have := ho r hr
    unfold debounce
    unfold maxDebounce at this
    omega

/-- A resync while a pending pass is not due yet does not. -/
theorem Loop.Timed.not_quiet {l : Loop H D} (h : l.Timed) {first due now : ℕ}
    (hp : l.daemon.pending = some (first,due)) (hdue : now < due) {p : Pass} :
    ¬(Happened.passed .resync now p).Quiet l.history := by
  rw [h.pending] at hp
  cases hb : burst l.history with
  | nil =>
    rw [hb] at hp
    cases hp
  | cons t rest =>
    rw [hb] at hp
    cases hp
    obtain ⟨hlast,hfirst⟩ := lt_min_iff.mp hdue
    rintro (h' | h' | h' | ⟨t',ht',h'⟩)
    · cases h'
    · cases h'
    · have hmem : (first::rest).getLast (by simp) ∈ changeTimes l.history := by
        apply h.suffix.subset
        rw [hb]
        exact List.getLast_mem _
      have := h' _ hmem
      omega
    · rw [hb] at ht'
      cases ht'
      omega

section
variable [DecidableEq D]

theorem Loop.Timed.due_quiet_iff {l : Loop H D} (h : l.Timed) {elapsed : ℕ}
    {p : PassAnswers H K D} :
    Everywhere Happened.Quiet (l.act sys (.due elapsed p)).history ↔
      Everywhere Happened.Quiet l.history ∧ ¬l.EndsEarly (.due elapsed p) := by
  by_cases he : l.ended = true
  · simp [Loop.act,Loop.EndsEarly,he]
  · simp only [Loop.act,if_neg he,Loop.EndsEarly]
    rcases l.daemon.duePass_cases (l.clock+elapsed) with ⟨hs,first,due,hp,hle⟩ |
      ⟨hlater,⟨hs,r,hr,hle⟩ | ⟨hs,hnone⟩⟩
    · simp only [hs,Loop.startPass,everywhere_concat]
      rw [and_congr_right fun _ => iff_of_true (h.quiet_of_due hp hle) ?_]
      rintro ⟨-,⟨_,_,hp',hlt⟩,-⟩
      rw [hp] at hp'
      cases hp'
      omega
    · simp only [hs,Loop.startPass,everywhere_concat]
      cases hp : l.daemon.pending with
      | none =>
        rw [and_congr_right fun _ => iff_of_true (h.quiet_of_resync hp hr hle) ?_]
        rintro ⟨-,⟨_,_,hp',-⟩,-⟩
        cases hp'
      | some entry =>
        have hlt := hlater entry.1 entry.2 hp
        rw [and_congr_right fun _ => iff_of_false (h.not_quiet hp hlt) (not_not_intro ?_)]
        exact ⟨Bool.eq_false_iff.mpr he,⟨_,_,rfl,hlt⟩,r,hr,hle⟩
    · simp only [hs]
      rw [iff_self_and]
      rintro - ⟨-,-,r,hr,hle⟩
      have := hnone r hr
      omega

/-- What each action adds to the history respects the quiet period, unless it ends early. -/
theorem Loop.Timed.act_quiet_iff {l : Loop H D} (h : l.Timed) (sys : InotifySys K)
    (action : LoopAction H K D) :
    Everywhere Happened.Quiet (l.act sys action).history ↔
      Everywhere Happened.Quiet l.history ∧ ¬l.EndsEarly action := by
  cases action with
  | due elapsed p => exact h.due_quiet_iff
  | hangup a p =>
    by_cases he : l.ended = true
    · simp [Loop.act,Loop.EndsEarly,he]
    · simp only [Loop.act,if_neg he,Loop.EndsEarly]
      split_ifs <;> simp only [Loop.startPass,everywhere_concat,Happened.Quiet] <;> simp
  | inotify events failed elapsed =>
    by_cases he : l.ended = true
    · simp [Loop.act,Loop.EndsEarly,he]
    · simp only [Loop.act,if_neg he,Loop.EndsEarly]
      cases l.daemon.handleInotify events failed (l.clock+elapsed) with
      | error e => simp
      | ok r => simp [Happened.Quiet]
  | terminate => simp [Loop.act,Loop.EndsEarly]
  | otherSignal => simp [Loop.act,Loop.EndsEarly]
  | failed => simp [Loop.act,Loop.EndsEarly]

/-- In every run, the passes for events and resyncs respect the quiet period exactly if no
wake-up ends with the resync due while a pending pass is not due yet. -/
theorem quiet_period_iff (startup : Startup sys H) (world : World D) (unique : Bool)
    (clock : ℕ) (a : PassAnswers H K D) (actions : List (LoopAction H K D)) :
    Everywhere Happened.Quiet
      ((Loop.start startup world unique clock a).run sys actions).history ↔
      Everywhere (fun before action =>
        ¬((Loop.start startup world unique clock a).run sys before).EndsEarly action) actions := by
  induction actions using List.reverseRecOn with
  | nil =>
    simp only [Loop.run,List.foldl_nil,everywhere_nil,iff_true]
    exact everywhere_concat.mpr ⟨everywhere_nil _,.inl rfl⟩
  | append_singleton actions action ih =>
    have ht := Loop.run_timed startup world unique clock a actions
    rw [everywhere_concat,← ih,← ht.act_quiet_iff sys action]
    simp only [Loop.run,List.foldl_append,List.foldl_cons,List.foldl_nil]

end
/-! A resync that is due 50 ms after a change. -/
namespace ResyncInBurst

open SharedMembership (runtime watcher)

def startup : Startup SharedMembership.sys Unit where
  options := TargetBeneath.options
  env := SharedMembership.env
  loaded := SharedMembership.loaded
  load_eq := SharedMembership.load_eq
  openEnv := SharedMembership.openEnv
  runtime := runtime
  open_eq := SharedMembership.open_eq
  inotify := ()
  watcher := watcher
  new_eq := by rw [SharedMembership.new_eq]

/-- Every directory is empty. -/
def env : PassEnv Unit where
  readDir := fun _ => .ok ([],none)
  statx := fun _ _ => .error .noent
  openDir := fun _ _ => .error .noent
  isDeleted := fun _ => .ok false
  strerror := fun _ => "an error"
  rootError := fun _ => none
  resolveDir := fun _ => .error "no such directory"
  inspect := fun _ => .notMounted

def identity : MountIdentity := ⟨0,none,⟨0,0,0⟩⟩

/-- No step is run, so what happens in one does not matter. -/
def answers : PassAnswers Unit Unit Unit where
  env := env
  inotify := ()
  steps := fun _ => ⟨fun _ t => t,fun _ => none,fun _ => (),⟨0,0,0⟩,0,none,⟨false,false,false,false,false⟩,0⟩
  elapsed := 0

def world : World Unit := ⟨fun _ => [],.empty,.empty,[]⟩

def first : Loop Unit Unit := .start startup world false 0 answers

/-- An entry was created. -/
def event : InotifyEvent := ⟨1,false,false,false,false,false⟩

def changed : LoopAction Unit Unit Unit := .inotify [event] none (59950*1000000)
def wakeUp : LoopAction Unit Unit Unit := .due (50*1000000) answers

theorem isChange : (first.daemon.watcher.classify [event]).isChange = true := by
  have hwatcher : first.daemon.watcher = _ :=
    (Loop.start_frame startup world false 0 answers).2.2.2.1
  rw [hwatcher]
  decide +kernel

theorem first_nextResync : first.daemon.nextResync = some (60*nanosPerSec) := by
  have h : first.daemon.nextResync = _ := (Loop.start_frame startup world false 0 answers).2.2.2.2.1
  have hloaded : startup.loaded = SharedMembership.loaded := by rw [startup]
  rw [h,hloaded,SharedMembership.loaded_lists.2.2]
  rfl

theorem first_frame : first.ended = false ∧ first.clock = 0 ∧ first.daemon.pending = none :=
  have h := Loop.start_frame startup world false 0 answers
  ⟨h.1,h.2.1,h.2.2.1⟩

theorem changeAt_of {l : Loop Unit Unit} (he : l.ended = false) (hclock : l.clock = 0)
    (hc : (l.daemon.watcher.classify [event]).isChange = true) :
    l.changeAt changed = some (59950*1000000) ∧ l.passStarts SharedMembership.sys changed = [] := by
  have hd : l.daemon.watcher.drain [event] none =
      .ok (l.daemon.watcher.classify [event],_) := rfl
  constructor
  · simp only [changed,Loop.changeAt,hd,he,hc,hclock,true_and,if_true,Nat.zero_add]
  · obtain ⟨d,hd'⟩ : ∃ d, l.daemon.handleInotify [event] none (l.clock+59950*1000000) =
        .ok (d,l.daemon.watcher.classify [event]) := ⟨_,rfl⟩
    simp [Loop.passStarts,changed,Loop.act,he,hd',Happened.start?]

theorem endsEarly_of {l : Loop Unit Unit} (he : l.ended = false)
    (hclock : l.clock = 0) (hpending : l.daemon.pending = none)
    (hresync : l.daemon.nextResync = some (60*nanosPerSec))
    (hc : (l.daemon.watcher.classify [event]).isChange = true) :
    (l.act SharedMembership.sys changed).EndsEarly wakeUp := by
  unfold Changes.isChange at hc
  simp only [Loop.act,changed,he,Bool.false_eq_true,if_false,Daemon.handleInotify,Watcher.drain,
    if_pos hc,hclock,Daemon.schedule,Daemon.degrade,hpending]
  refine ⟨rfl,⟨_,_,rfl,?_⟩,_,hresync,?_⟩
  · show 0+59950*1000000+50*1000000 <
      min (0+59950*1000000+debounce) (0+59950*1000000+maxDebounce)
    decide
  · show 60*nanosPerSec ≤ 0+59950*1000000+50*1000000
    decide

theorem act_changed_clock {l : Loop Unit Unit} (he : l.ended = false) (hclock : l.clock = 0) :
    (l.act SharedMembership.sys changed).clock = 59950*1000000 := by
  simp [Loop.act,changed,he,Daemon.handleInotify,Watcher.drain,hclock]

theorem passStarts_of_endsEarly {l : Loop Unit Unit} (h : l.EndsEarly wakeUp) :
    l.passStarts SharedMembership.sys wakeUp = [l.clock+50*1000000] := by
  obtain ⟨he,⟨_,_,hp,hlt⟩,r,hr,hle⟩ := h
  have hdue : l.daemon.duePass (l.clock+50*1000000) = some .resync := by
    rcases l.daemon.duePass_cases (l.clock+50*1000000) with ⟨-,_,_,hp',hle'⟩ |
      ⟨-,⟨hs,-⟩ | ⟨-,hnone⟩⟩
    · rw [hp] at hp'
      cases hp'
      omega
    · exact hs
    · have := hnone r hr
      omega
  simp [Loop.passStarts,wakeUp,Loop.act,he,hdue,Loop.startPass,Happened.start?]

/-- The drained change is pending until the resync, which starts after it. -/
theorem drained_changes_pending_run :
    first.changesSince SharedMembership.sys [changed] = [59950*1000000] ∧
      DueSoon [59950*1000000] (first.run SharedMembership.sys [changed]).daemon.pending ∧
      (first.run SharedMembership.sys [changed]).passStarts SharedMembership.sys wakeUp =
        [60000*1000000] ∧
      (∀ t ∈ first.changes SharedMembership.sys [changed], t ≤ 60000*1000000) ∧
      first.changesSince SharedMembership.sys [changed,wakeUp] = [] := by
  obtain ⟨he,hclock,hpending⟩ := first_frame
  obtain ⟨hat,hstarts⟩ := changeAt_of he hclock isChange
  have hearly : (first.act SharedMembership.sys changed).EndsEarly wakeUp :=
    endsEarly_of he hclock hpending first_nextResync isChange
  have hsince : first.changesSince SharedMembership.sys [changed] = [59950*1000000] := by
    rw [← List.nil_append [changed],Loop.changesSince_concat]
    simp [Loop.run,hat,hstarts,Loop.changesSince]
  have hpass : (first.run SharedMembership.sys [changed]).passStarts SharedMembership.sys wakeUp =
      [60000*1000000] := by
    rw [show first.run SharedMembership.sys [changed] = first.act SharedMembership.sys changed
      from rfl,passStarts_of_endsEarly hearly,act_changed_clock he hclock]
  obtain ⟨-,hafter⟩ := drained_changes_pending startup world false 0 answers [changed,wakeUp]
  refine ⟨hsince,?_,hpass,?_,?_⟩
  · have h := (drained_changes_pending startup world false 0 answers [changed]).1
    rwa [show Loop.start startup world false 0 answers = first from rfl,hsince] at h
  · exact hafter 1 wakeUp rfl _ (hpass.symm ▸ List.mem_singleton_self _)
  · rw [show [changed,wakeUp] = [changed]++[wakeUp] from rfl,Loop.changesSince_concat,hpass]
    simp

theorem not_quiet_of {l : Loop Unit Unit} (ht : (l.run SharedMembership.sys [changed]).Timed)
    (h : (l.act SharedMembership.sys changed).EndsEarly wakeUp) :
    ¬Everywhere Happened.Quiet (l.run SharedMembership.sys [changed,wakeUp]).history := by
  simp only [Loop.run,List.foldl_cons,List.foldl_nil] at ht ⊢
  rw [ht.act_quiet_iff SharedMembership.sys wakeUp]
  exact fun hquiet => hquiet.2 h

/-- The resync starts 50 ms after the change was drained. -/
theorem resync_in_burst :
    ¬Everywhere Happened.Quiet (first.run SharedMembership.sys [changed,wakeUp]).history := by
  obtain ⟨he,hclock,hpending⟩ := first_frame
  apply not_quiet_of (Loop.run_timed startup world false 0 answers [changed])
  exact endsEarly_of he hclock hpending first_nextResync isChange

end ResyncInBurst
end Byssus
