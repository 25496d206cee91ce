import Mathlib.Data.Finset.Sort
import Byssus.Daemon

/-! Notifications to the service manager: what the daemon sends over a run, and what a service
manager makes of it. -/
namespace Byssus

/-- `one_line`. -/
def oneLine (s : Text) : Text := s.map fun c => if c = '\n' ∨ c = '\r' then ' ' else c

/-- `first_line`: `str::lines` ends a line at `\n` or at `\r\n`. -/
def firstLine (s : Text) : Text :=
  let line := s.takeWhile fun c => c ≠ '\n'
  if line = s then s else if line.getLast? = some '\r' then line.dropLast else line

/-- The order of a `BTreeSet`. -/
def ascending {α : Type} [Ord α] [Std.TransOrd α] [Std.LawfulEqOrd α] (s : Finset α) : List α :=
  have : IsTrans α fun a b => (compare a b).isLE = true := ⟨fun _ _ _ => Std.TransCmp.isLE_trans⟩
  have : Std.Antisymm fun a b : α => (compare a b).isLE = true :=
    ⟨fun _ _ hab hba => Std.LawfulEqCmp.eq_of_compare (Std.OrientedCmp.isLE_antisymm hab hba)⟩
  have : Std.Total fun a b : α => (compare a b).isLE = true := ⟨fun a b => by
    have hswap : compare a b = (compare b a).swap := Std.OrientedCmp.eq_swap
    rw [hswap]
    cases compare b a <;> simp⟩
  s.sort fun a b => (compare a b).isLE = true

def listed (names : List Text) : Text := List.intercalate [',',' '] names

/-- `MAX_STATUS_NAMES`. -/
def maxStatusNames : ℕ := 5

variable {H K D : Type}

/-- `status_text`; an error is described as by `{e:#}`. -/
def statusText (describe : ReloadError → Text) (d : Daemon H D) : Text :=
  Nat.toDigits 10 d.runtime.groups.size++" group(s), ".toList++
    Nat.toDigits 10 d.world.state.records.length++" mount(s)".toList++
    (if d.degraded.groups = ∅ ∧ d.degraded.sets = ∅ then [] else
      "; degraded: ".toList++listed ((ascending d.degraded.groups).map GroupId.display++
        (ascending d.degraded.sets).map fun s => setLabel s.text))++
    (if d.unreadable = ∅ then [] else
      "; unreadable: ".toList++listed ((ascending d.unreadable).take maxStatusNames)++
        (if maxStatusNames < d.unreadable.card then
          " and ".toList++Nat.toDigits 10 (d.unreadable.card-maxStatusNames)++" more".toList
        else [])++" (see byssus status)".toList)++
    match d.lastReloadError with
    | some e =>
      "; last reload failed, running previous configuration: ".toList++firstLine (describe e)
    | none => []

/-- `STATUS=` and the status. -/
def statusField (status : Text) : Text := "STATUS=".toList++status

/-- `MONOTONIC_USEC=` and the time. -/
def usecField (usec : ℕ) : Text := "MONOTONIC_USEC=".toList++Nat.toDigits 10 usec

def readyFields (status : Text) : List Text := ["READY=1".toList,statusField status]

def reloadingStatus : Text := "Reloading configuration".toList

def reloadingFields (usec : ℕ) : List Text :=
  ["RELOADING=1".toList,usecField usec,statusField reloadingStatus]

def stoppingStatus : Text := "Stopping; mounts are preserved".toList

def stoppingFields : List Text := ["STOPPING=1".toList,statusField stoppingStatus]

/-- A message has one field in each line. -/
def message (fields : List Text) : Text := List.intercalate ['\n'] fields

structure Notifier where
  /-- There is a socket. -/
  enabled : Bool
  lastStatus : Text
  /-- What was sent, whether it arrived or not. -/
  sent : List Text

namespace Notifier

def send (n : Notifier) (message : Text) : Notifier :=
  if n.enabled then {n with sent := n.sent++[message]} else n

def ready (n : Notifier) (status : Text) : Notifier :=
  {n.send (message (readyFields (oneLine status))) with lastStatus := oneLine status}

def reloading (n : Notifier) (usec : ℕ) : Notifier := n.send (message (reloadingFields usec))

def stopping (n : Notifier) : Notifier := n.send (message stoppingFields)

def status (n : Notifier) (status : Text) : Notifier :=
  if n.lastStatus ≠ oneLine status then
    {n.send (message [statusField (oneLine status)]) with lastStatus := oneLine status}
  else n

end Notifier

/-! ### A service manager -/

inductive Phase
  | starting | ready | reloading | stopping
  deriving DecidableEq

/-- What a service manager knows of a service. -/
structure Manager where
  phase : Phase
  status : Text
  deriving DecidableEq

namespace Manager

def readField (m : Manager) (line : Text) : Manager :=
  if line = "READY=1".toList then {m with phase := .ready}
  else if line = "RELOADING=1".toList then {m with phase := .reloading}
  else if line = "STOPPING=1".toList then {m with phase := .stopping}
  else if "STATUS=".toList <+: line then {m with status := line.drop 7}
  else m

/-- A message has one field in each line. -/
def receive (m : Manager) (message : Text) : Manager :=
  (message.splitOn '\n').foldl readField m

/-- After the messages that a service has sent since it was started. -/
def heard (messages : List Text) : Manager := messages.foldl receive ⟨.starting,[]⟩

end Manager

/-- How the phases may follow each other. -/
inductive Phase.Next : Phase → Phase → Prop
  | started : Next .starting .ready
  | reload : Next .ready .reloading
  | reloaded : Next .reloading .ready
  | stop : Next .ready .stopping

/-- The manager learns something: the next phase, or another status. -/
def Manager.Learns (m m' : Manager) : Prop :=
  m.phase.Next m'.phase ∨ m'.phase = m.phase ∧ m.phase ≠ .stopping ∧ m'.status ≠ m.status

/-- Every message tells the manager something. -/
def AllTell (messages : List Text) : Prop :=
  ∀ before message after, messages = before++message::after →
    (Manager.heard before).Learns ((Manager.heard before).receive message)

/-- The fields of a message are those that are meant, whatever the status is. -/
inductive OwnFields : List Text → Prop
  | ready (status : Text) : OwnFields (readyFields status)
  | reloading (usec : ℕ) : OwnFields (reloadingFields usec)
  | stopping : OwnFields stoppingFields
  | status (status : Text) : OwnFields [statusField status]

/-! ### Messages and their fields -/

theorem oneLine_newline (s : Text) : '\n' ∉ oneLine s := by
  simp only [oneLine,List.mem_map,not_exists,not_and]
  intro c _ hc
  split_ifs at hc with h
  · exact absurd hc (by decide)
  · exact h (.inl hc)

theorem toDigits_newline (n : ℕ) : '\n' ∉ Nat.toDigits 10 n := by
  intro h
  have hdigit := Nat.isDigit_of_mem_toDigits (by decide) (by decide) h
  exact absurd hdigit (by decide)

theorem statusField_newline {status : Text} (h : '\n' ∉ status) : '\n' ∉ statusField status := by
  unfold statusField
  rw [List.mem_append,not_or]
  exact ⟨by decide,h⟩

theorem usecField_newline (usec : ℕ) : '\n' ∉ usecField usec := by
  unfold usecField
  rw [List.mem_append,not_or]
  exact ⟨by decide,toDigits_newline usec⟩

theorem splitOn_message {fields : List Text} (hne : fields ≠ []) (h : ∀ l ∈ fields, '\n' ∉ l) :
    (message fields).splitOn '\n' = fields :=
  List.splitOn_intercalate '\n' h hne

section
variable {status : Text} (h : '\n' ∉ status)
include h

theorem splitOn_status : (message [statusField status]).splitOn '\n' = [statusField status] := by
  refine splitOn_message (List.cons_ne_nil _ _) ?_
  simpa only [List.forall_mem_singleton] using statusField_newline h

theorem splitOn_ready : (message (readyFields status)).splitOn '\n' = readyFields status := by
  refine splitOn_message (List.cons_ne_nil _ _) ?_
  rw [readyFields,List.forall_mem_cons,List.forall_mem_singleton]
  exact ⟨by decide,statusField_newline h⟩

end

theorem splitOn_reloading (usec : ℕ) :
    (message (reloadingFields usec)).splitOn '\n' = reloadingFields usec := by
  refine splitOn_message (List.cons_ne_nil _ _) ?_
  rw [reloadingFields,List.forall_mem_cons,List.forall_mem_cons,List.forall_mem_singleton]
  exact ⟨by decide,usecField_newline usec,statusField_newline (by decide)⟩

theorem splitOn_stopping : (message stoppingFields).splitOn '\n' = stoppingFields := by
  refine splitOn_message (List.cons_ne_nil _ _) ?_
  rw [stoppingFields,List.forall_mem_cons,List.forall_mem_singleton]
  exact ⟨by decide,statusField_newline (by decide)⟩

/-! ### What the manager makes of them -/

namespace Manager

variable (m : Manager)

theorem readField_status (status : Text) :
    m.readField (statusField status) = {m with status := status} := by
  have hhead : (statusField status).take 7 = "STATUS=".toList := rfl
  have hkey : "STATUS=".toList <+: statusField status := List.prefix_append _ _
  unfold readField
  rw [if_neg,if_neg,if_neg,if_pos hkey]
  · rfl
  all_goals
    intro h
    rw [h] at hhead
    exact absurd hhead (by decide)

theorem readField_usec (usec : ℕ) : m.readField (usecField usec) = m := by
  have hhead : (usecField usec).head? = some 'M' := rfl
  unfold readField
  rw [if_neg,if_neg,if_neg,if_neg]
  · rintro ⟨rest,hrest⟩
    rw [← hrest] at hhead
    have hletter : some 'S' = some 'M' := hhead
    cases hletter
  all_goals
    intro h
    rw [h] at hhead
    exact absurd hhead (by decide)

theorem receive_status {status : Text} (h : '\n' ∉ status) :
    m.receive (message [statusField status]) = {m with status := status} := by
  rw [receive,splitOn_status h,List.foldl_cons,List.foldl_nil,readField_status]

theorem receive_ready {status : Text} (h : '\n' ∉ status) :
    m.receive (message (readyFields status)) = ⟨.ready,status⟩ := by
  rw [receive,splitOn_ready h,readyFields,List.foldl_cons,List.foldl_cons,List.foldl_nil,
    readField_status]
  rfl

theorem receive_reloading (usec : ℕ) :
    m.receive (message (reloadingFields usec)) = ⟨.reloading,reloadingStatus⟩ := by
  rw [receive,splitOn_reloading,reloadingFields,List.foldl_cons,List.foldl_cons,List.foldl_cons,
    List.foldl_nil,readField_status,readField_usec]
  rfl

theorem receive_stopping :
    m.receive (message stoppingFields) = ⟨.stopping,stoppingStatus⟩ := by
  rw [receive,splitOn_stopping,stoppingFields,List.foldl_cons,List.foldl_cons,List.foldl_nil,
    readField_status]
  rfl

end Manager

/-! ### What the notifier sends -/

namespace Notifier

/-- What the manager knows after what was sent. -/
structure Knows (n : Notifier) (m : Manager) : Prop where
  enabled : n.enabled = true
  heard : Manager.heard n.sent = m
  tell : AllTell n.sent
  own : ∀ message ∈ n.sent, OwnFields (message.splitOn '\n')

section
variable (n : Notifier)

theorem sent_send (text : Text) : n.sent <+: (n.send text).sent := by
  unfold send
  split_ifs
  · exact List.prefix_append _ _
  · exact List.prefix_refl _

theorem sent_ready (status : Text) : n.sent <+: (n.ready status).sent := n.sent_send _

theorem sent_reloading (usec : ℕ) : n.sent <+: (n.reloading usec).sent := n.sent_send _

theorem sent_stopping : n.sent <+: n.stopping.sent := n.sent_send _

theorem sent_status (status : Text) : n.sent <+: (n.status status).sent := by
  unfold Notifier.status
  split_ifs
  · exact n.sent_send _
  · exact List.prefix_refl _

end

variable {n : Notifier} {m : Manager}

theorem Knows.send (h : n.Knows m) {fields : List Text} {m' : Manager} (hown : OwnFields fields)
    (hfields : (message fields).splitOn '\n' = fields) (hm : m.receive (message fields) = m')
    (hlearns : m.Learns m') : (n.send (message fields)).Knows m' := by
  have hsent : n.send (message fields) = {n with sent := n.sent++[message fields]} := by
    rw [Notifier.send,if_pos h.enabled]
  have hheard : Manager.heard (n.sent++[message fields]) = m' := by
    rw [Manager.heard,List.foldl_append,← Manager.heard,h.heard]
    exact hm
  rw [hsent]
  refine ⟨h.enabled,hheard,?_,?_⟩
  · intro before message after heq
    rcases List.eq_nil_or_concat after with rfl | ⟨after,last,rfl⟩
    · obtain ⟨rfl,hlast⟩ := List.append_inj' heq rfl
      cases hlast
      rw [h.heard,hm]
      exact hlearns
    · rw [List.concat_eq_append,← List.cons_append,← List.append_assoc] at heq
      exact h.tell before message after (List.append_inj' heq rfl).1
  · intro message hmessage
    rcases List.mem_append.mp hmessage with hmessage | hmessage
    · exact h.own message hmessage
    · rw [List.mem_singleton.mp hmessage,hfields]
      exact hown

theorem Knows.lastStatus (h : n.Knows m) (status : Text) :
    ({n with lastStatus := status}).Knows m := ⟨h.enabled,h.heard,h.tell,h.own⟩

theorem Knows.ready (h : n.Knows m) (hphase : m.phase.Next .ready) (status : Text) :
    (n.ready status).Knows ⟨.ready,oneLine status⟩ := by
  have hline := oneLine_newline status
  exact (h.send (.ready _) (splitOn_ready hline) (m.receive_ready hline) (.inl hphase)).lastStatus _

theorem Knows.reloading (h : n.Knows m) (hphase : m.phase = .ready) (usec : ℕ) :
    (n.reloading usec).Knows ⟨.reloading,reloadingStatus⟩ :=
  h.send (.reloading usec) (splitOn_reloading usec) (m.receive_reloading usec)
    (.inl (hphase ▸ .reload))

theorem Knows.stopping (h : n.Knows m) (hphase : m.phase = .ready) :
    n.stopping.Knows ⟨.stopping,stoppingStatus⟩ :=
  h.send .stopping splitOn_stopping m.receive_stopping (.inl (hphase ▸ .stop))

/-- A status that is not sent is the last one. -/
theorem Knows.status (h : n.Knows m) (status : Text) (hphase : m.phase ≠ .stopping)
    (hnew : n.lastStatus ≠ oneLine status → m.status ≠ oneLine status) :
    ∃ shown, (n.status status).Knows ⟨m.phase,shown⟩ ∧
      (n.status status).lastStatus = oneLine status ∧
      (m.status = n.lastStatus → shown = oneLine status) := by
  unfold Notifier.status
  by_cases hlast : n.lastStatus = oneLine status
  · rw [if_neg (not_not_intro hlast)]
    exact ⟨m.status,h,hlast,fun hm => hm.trans hlast⟩
  · rw [if_pos hlast]
    have hline := oneLine_newline status
    have hsend := h.send (.status _) (splitOn_status hline) (m.receive_status hline)
      (.inr ⟨rfl,hphase,(hnew hlast).symm⟩)
    exact ⟨_,hsend.lastStatus _,rfl,fun _ => rfl⟩

end Notifier

/-- No status is the one that is shown during a reload. -/
theorem statusText_head (describe : ReloadError → Text) (d : Daemon H D) :
    ∃ c rest, oneLine (statusText describe d) = c::rest ∧ c ≠ 'R' := by
  have hdigits : Nat.toDigits 10 d.runtime.groups.size ≠ [] := Nat.toDigits_ne_nil
  obtain ⟨c,digits,hc⟩ := List.exists_cons_of_ne_nil hdigits
  have hdigit : c.isDigit = true := Nat.isDigit_of_mem_toDigits (by decide) (by decide)
    (hc ▸ List.mem_cons_self : c ∈ Nat.toDigits 10 d.runtime.groups.size)
  unfold statusText
  rw [hc]
  simp only [List.cons_append,List.append_assoc,oneLine,List.map_cons]
  refine ⟨_,_,rfl,?_⟩
  split_ifs
  · decide
  · rintro rfl
    exact absurd hdigit (by decide)

/-! ### The daemon and its notifier -/

structure Serving (H D : Type) where
  loop : Loop H D
  notifier : Notifier

namespace Serving

variable (describe : ReloadError → Text)

/-- The end of a pass. -/
def passed (loop : Loop H D) (notifier : Notifier) : Serving H D :=
  ⟨loop,notifier.status (statusText describe loop.daemon)⟩

def ready (w : Serving H D) : Serving H D :=
  {w with notifier := w.notifier.ready (statusText describe w.loop.daemon)}

section
variable [DecidableEq D] (sys : InotifySys K)

/-- The start of the daemon up to its event loop. -/
def start {sys : InotifySys K} (startup : Startup sys H) (world : World D) (unique : Bool)
    (clock : ℕ) (a : PassAnswers H K D) (enabled : Bool) : Serving H D :=
  ready describe (passed describe (.start startup world unique clock a) ⟨enabled,[],[]⟩)

/-- What the loop does in a wake-up; `run` says that it stops when the loop has ended. -/
def act (w : Serving H D) (action : LoopAction H K D) : Serving H D :=
  if w.loop.ended then w else
  match action with
  | .hangup a p =>
    let notifier := w.notifier.reloading (w.loop.clock/1000)
    let done := w.loop.daemon.reload sys a
    let loop := {w.loop with
      daemon := done.1
      clock := w.loop.clock+a.elapsed
      history := w.loop.history++[.reloaded done.2]}
    ready describe (if done.2 then passed describe (loop.startPass sys .reload p) notifier
      else ⟨loop,notifier⟩)
  | .due elapsed p =>
    let loop := {w.loop with clock := w.loop.clock+elapsed}
    match loop.daemon.duePass loop.clock with
    | none => ⟨loop,w.notifier⟩
    | some trigger => passed describe (loop.startPass sys trigger p) w.notifier
  | other =>
    let loop := w.loop.act sys other
    ⟨loop,if loop.ended then w.notifier.stopping else w.notifier⟩

def run (w : Serving H D) (actions : List (LoopAction H K D)) : Serving H D :=
  actions.foldl (act describe sys) w

/-- A life of the daemon, with a socket. -/
def served {sys : InotifySys K} (startup : Startup sys H) (world : World D) (unique : Bool)
    (clock : ℕ) (a : PassAnswers H K D) (actions : List (LoopAction H K D)) : Serving H D :=
  run describe sys (start describe startup world unique clock a true) actions

/-- The notifier changes nothing of what the loop does. -/
theorem act_loop (w : Serving H D) (action : LoopAction H K D) :
    (act describe sys w action).loop = w.loop.act sys action := by
  unfold act
  by_cases he : w.loop.ended = true
  · rw [if_pos he]
    have hend : {w.loop with ended := true} = w.loop := by rw [← he]
    cases action <;> simp only [Loop.act,if_pos he,hend]
  · rw [if_neg he]
    cases action with
    | hangup a p =>
      simp only [Loop.act,if_neg he]
      split_ifs <;> rfl
    | due elapsed p =>
      simp only [Loop.act,if_neg he]
      cases w.loop.daemon.duePass (w.loop.clock+elapsed) <;> rfl
    | _ => rfl

theorem run_loop (w : Serving H D) (actions : List (LoopAction H K D)) :
    (run describe sys w actions).loop = w.loop.run sys actions := by
  induction actions generalizing w with
  | nil => rfl
  | cons action actions ih =>
    simp only [run,Loop.run,List.foldl_cons] at ih ⊢
    rw [ih,act_loop]

end

/-- What the service manager knows of the daemon, between two actions. -/
structure Heard (w : Serving H D) : Prop where
  /-- Readiness is reported after the first pass, and the end when the loop has ended. -/
  phase : (Manager.heard w.notifier.sent).phase = if w.loop.ended then .stopping else .ready
  /-- The status is that of the last pass or reload; groups and sets may have been lost since. -/
  status : w.loop.ended = false → ∃ degraded : Degraded,
    degraded.groups ⊆ w.loop.daemon.degraded.groups ∧ degraded.sets ⊆ w.loop.daemon.degraded.sets ∧
    (Manager.heard w.notifier.sent).status =
      oneLine (statusText describe {w.loop.daemon with degraded := degraded})
  tell : AllTell w.notifier.sent
  own : ∀ message ∈ w.notifier.sent, OwnFields (message.splitOn '\n')

/-- The notifier remembers what is shown. -/
structure Kept (w : Serving H D) : Prop extends Heard describe w where
  enabled : w.notifier.enabled = true
  last : w.loop.ended = false → (Manager.heard w.notifier.sent).status = w.notifier.lastStatus

variable {describe} {loop : Loop H D} {n : Notifier} {w : Serving H D}

theorem Kept.knows (h : Kept describe w) : w.notifier.Knows (Manager.heard w.notifier.sent) :=
  ⟨h.enabled,rfl,h.tell,h.own⟩

theorem Kept.phase_ready (h : Kept describe w) (he : w.loop.ended = false) :
    (Manager.heard w.notifier.sent).phase = .ready := by
  rw [h.phase,he]
  rfl

/-- The manager has just been told. -/
theorem kept_told {status : Text} (h : n.Knows ⟨.ready,oneLine status⟩)
    (hlast : n.lastStatus = oneLine status) (hstatus : status = statusText describe loop.daemon)
    (he : loop.ended = false) : Kept describe ⟨loop,n⟩ where
  phase := by simp [h.heard,he]
  status := fun _ => ⟨loop.daemon.degraded,Finset.Subset.refl _,Finset.Subset.refl _,
    by rw [h.heard,hstatus]⟩
  tell := h.tell
  own := h.own
  enabled := h.enabled
  last := fun _ => by rw [h.heard,hlast]

/-- Nothing that is shown has changed, but that groups and sets were lost. -/
theorem Kept.frame (h : Kept describe w) (hended : w.loop.ended = false)
    (hgroups : w.loop.daemon.degraded.groups ⊆ loop.daemon.degraded.groups)
    (hsets : w.loop.daemon.degraded.sets ⊆ loop.daemon.degraded.sets) (he : loop.ended = false)
    (htext : ∀ degraded, statusText describe {loop.daemon with degraded := degraded} =
      statusText describe {w.loop.daemon with degraded := degraded}) :
    Kept describe ⟨loop,w.notifier⟩ where
  phase := by rw [h.phase_ready hended,he]; rfl
  status := by
    obtain ⟨degraded,hg,hs,hstatus⟩ := h.status hended
    exact fun _ => ⟨degraded,hg.trans hgroups,hs.trans hsets,by rw [hstatus,htext]⟩
  tell := h.tell
  own := h.own
  enabled := h.enabled
  last := fun _ => h.last hended

theorem Kept.stop (h : Kept describe w) (hended : w.loop.ended = false) (he : loop.ended = true) :
    Kept describe ⟨loop,w.notifier.stopping⟩ := by
  have hknows := h.knows.stopping (h.phase_ready hended)
  have hno : loop.ended ≠ false := by rw [he]; decide
  exact ⟨⟨by simp [hknows.heard,he],fun hf => absurd hf hno,hknows.tell,hknows.own⟩,
    hknows.enabled,fun hf => absurd hf hno⟩

theorem Kept.passed (h : Kept describe w) (hended : w.loop.ended = false)
    (he : loop.ended = false) : Kept describe (Serving.passed describe loop w.notifier) := by
  obtain ⟨shown,hknows,hlast,hshown⟩ := h.knows.status (statusText describe loop.daemon)
    (by rw [h.phase_ready hended]; decide) (fun hne => by rwa [h.last hended])
  rw [h.phase_ready hended,hshown (h.last hended)] at hknows
  exact kept_told hknows hlast rfl he

/-- A reload, whether a pass follows or not. -/
theorem Kept.reloaded (h : Kept describe w) (hended : w.loop.ended = false) (usec : ℕ)
    (loop loop' : Loop H D) (pass : Bool) (he : loop.ended = false) (he' : loop'.ended = false) :
    Kept describe (ready describe (if pass then
      Serving.passed describe loop' (w.notifier.reloading usec)
      else ⟨loop,w.notifier.reloading usec⟩)) := by
  have hknows := h.knows.reloading (h.phase_ready hended) usec
  cases pass with
  | false => exact kept_told (hknows.ready .reloaded _) rfl rfl he
  | true =>
    obtain ⟨shown,hknows,-,-⟩ := hknows.status (statusText describe loop'.daemon)
      (by decide) (fun _ => by
        obtain ⟨c,rest,hc,hne⟩ := statusText_head describe loop'.daemon
        rw [hc]
        exact fun hR => hne (List.head_eq_of_cons_eq hR).symm)
    exact kept_told (hknows.ready .reloaded _) rfl rfl he'

section
variable [DecidableEq D] {sys : InotifySys K}

theorem startPass_ended (trigger : Trigger) (a : PassAnswers H K D) (l : Loop H D) :
    (l.startPass sys trigger a).ended = l.ended := rfl

theorem Kept.act (h : Kept describe w) (action : LoopAction H K D) :
    Kept describe (Serving.act describe sys w action) := by
  unfold Serving.act
  by_cases hended : w.loop.ended = true
  · rw [if_pos hended]
    exact h
  rw [if_neg hended]
  have he := Bool.eq_false_iff.mpr hended
  cases action with
  | hangup a p =>
    refine h.reloaded he _ _ _ _ he ?_
    rw [startPass_ended]
    exact he
  | due elapsed p =>
    simp only
    cases hd : w.loop.daemon.duePass (w.loop.clock+elapsed) with
    | none =>
      exact h.frame he (Finset.Subset.refl _) (Finset.Subset.refl _) he fun _ => rfl
    | some trigger =>
      refine h.passed he ?_
      rw [startPass_ended]
      exact he
  | terminate => exact h.stop he rfl
  | failed => exact h.stop he rfl
  | otherSignal =>
    simp only [Loop.act,he]
    exact h
  | inotify events failed elapsed =>
    simp only [Loop.act,if_neg hended]
    cases hd : w.loop.daemon.handleInotify events failed (w.loop.clock+elapsed) with
    | error e => exact h.stop he rfl
    | ok r =>
      obtain ⟨watcher,-,hdaemon⟩ := Daemon.handleInotify_ok hd
      simp only [he,Bool.false_eq_true,if_false,hdaemon]
      cases r.2.membershipChanged || r.2.overflow <;>
        exact h.frame he Finset.subset_union_left Finset.subset_union_left rfl fun _ => rfl

/-- Nothing is sent before the first pass. -/
theorem knows_nothing (lastStatus : Text) : Notifier.Knows ⟨true,lastStatus,[]⟩ ⟨.starting,[]⟩ :=
  ⟨rfl,rfl,fun before _ _ h => absurd h.symm (by simp),by simp⟩

theorem kept_start (startup : Startup sys H) (world : World D) (unique : Bool) (clock : ℕ)
    (a : PassAnswers H K D) : Kept describe (start describe startup world unique clock a true) := by
  unfold start
  generalize hloop : Loop.start startup world unique clock a = loop
  have he : loop.ended = false := by
    rw [← hloop]
    exact (Loop.start_frame startup world unique clock a).1
  obtain ⟨shown,hknows,-,-⟩ := (knows_nothing []).status (statusText describe loop.daemon)
    (by decide) (fun hne => hne)
  exact kept_told (hknows.ready .started _) rfl rfl he

theorem Kept.run {w : Serving H D} (h : Kept describe w) (actions : List (LoopAction H K D)) :
    Kept describe (Serving.run describe sys w actions) := by
  induction actions generalizing w with
  | nil => exact h
  | cons action actions ih => exact ih (h.act action)

/-- What was sent stays sent. -/
theorem sent_act (w : Serving H D) (action : LoopAction H K D) :
    w.notifier.sent <+: (Serving.act describe sys w action).notifier.sent := by
  unfold Serving.act
  split_ifs
  · exact List.prefix_refl _
  cases action with
  | hangup a p =>
    refine (w.notifier.sent_reloading (w.loop.clock/1000)).trans
      (List.IsPrefix.trans ?_ (Notifier.sent_ready _ _))
    split_ifs
    · exact Notifier.sent_status _ _
    · exact List.prefix_refl _
  | due elapsed p =>
    simp only
    cases w.loop.daemon.duePass (w.loop.clock+elapsed) with
    | none => exact List.prefix_refl _
    | some trigger => exact Notifier.sent_status _ _
  | _ =>
    simp only
    split_ifs
    · exact w.notifier.sent_stopping
    · exact List.prefix_refl _

theorem sent_run (w : Serving H D) (actions : List (LoopAction H K D)) :
    w.notifier.sent <+: (Serving.run describe sys w actions).notifier.sent := by
  induction actions generalizing w with
  | nil => exact List.prefix_refl _
  | cons action actions ih => exact (sent_act w action).trans (ih _)

theorem sent_start (startup : Startup sys H) (world : World D) (unique : Bool) (clock : ℕ)
    (a : PassAnswers H K D) : (start describe startup world unique clock a true).notifier.sent =
      let status := oneLine (statusText describe (Loop.start startup world unique clock a).daemon)
      [message [statusField status],message (readyFields status)] := by
  unfold start
  generalize Loop.start startup world unique clock a = loop
  obtain ⟨c,rest,hc,-⟩ := statusText_head describe loop.daemon
  have hne : ([] : Text) ≠ oneLine (statusText describe loop.daemon) := by
    rw [hc]
    exact List.cons_ne_nil c rest |>.symm
  simp only [ready,Serving.passed,Notifier.status,if_pos hne]
  rfl

variable (describe sys) in
/-- In every run of the daemon the service manager hears that it is ready after the first pass, and
from then on knows what the daemon is doing.  Every message tells it something new, and no text can
add a field to one. -/
theorem served_heard (startup : Startup sys H) (world : World D) (unique : Bool) (clock : ℕ)
    (a : PassAnswers H K D) (actions : List (LoopAction H K D)) :
    (served describe startup world unique clock a actions).loop =
        (Loop.start startup world unique clock a).run sys actions ∧
      Heard describe (served describe startup world unique clock a actions) ∧
      let status := oneLine (statusText describe (Loop.start startup world unique clock a).daemon)
      [message [statusField status],message (readyFields status)] <+:
        (served describe startup world unique clock a actions).notifier.sent := by
  refine ⟨run_loop describe sys _ actions,((kept_start startup world unique clock a).run _).toHeard,
    ?_⟩
  have hprefix : (start describe startup world unique clock a true).notifier.sent <+:
      (served describe startup world unique clock a actions).notifier.sent := sent_run _ _
  rwa [sent_start] at hprefix

end

end Serving

end Byssus
