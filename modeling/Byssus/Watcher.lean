import Byssus.Library.Maps
import Byssus.Runtime

/-! inotify watches on membership directories.
The kernel's side of inotify is a parameter: adding and removing a watch may change its
state, and may let other processes act first. -/
namespace Byssus

open Std

/-- What a batch of inotify events means for reconciliation. -/
structure Changes where
  membershipChanged : Bool
  overflow : Bool
  lost : Finset GroupId
  lostSets : Finset Name
  deriving DecidableEq

/-- `Changes::default`. -/
def Changes.default : Changes := ⟨false,false,∅,∅⟩

inductive Watched
  | group (id : GroupId)
  | setRoot (set : Name)
  deriving DecidableEq

/-- The label of a set group or of an intermediate directory of a set. -/
def Watched.inSet : Watched → Bool
  | .group id => id.set.isSome
  | .setRoot _ => false

structure Watcher where
  watches : ExtTreeMap ℕ Watched
  setGroups : ExtTreeMap GroupId ℕ

/-- The flags of an event that `drain` looks at. -/
structure InotifyEvent where
  wd : ℕ
  queueOverflow : Bool
  deleteSelf : Bool
  moveSelf : Bool
  ignored : Bool
  unmount : Bool
  deriving DecidableEq

def InotifyEvent.selfEvent (e : InotifyEvent) : Bool :=
  e.deleteSelf || e.moveSelf || e.ignored || e.unmount

/-- `inotify_add_watch` for membership events, with `IN_DONT_FOLLOW` if the flag is set,
and `inotify_rm_watch`, whose result is ignored. -/
structure InotifySys (K : Type) where
  addWatch : AbsPath → Bool → K → Except Errno ℕ × K
  removeWatch : ℕ → K → K
  strerror : Errno → String

namespace Watcher

def empty : Watcher := ⟨∅,∅⟩

variable {H K : Type} (sys : InotifySys K)

/-- `release`: stops watching `wd` unless another set group still uses it. -/
def release (wd : ℕ) (acc : Watcher × K) : Watcher × K :=
  let (w,k) := acc
  if wd ∈ Maps.values w.setGroups then (w,k)
  else if w.watches[wd]?.any Watched.inSet then
    ({w with watches := w.watches.erase wd},sys.removeWatch wd k)
  else (w,k)

/-- `set_groups.remove`, and the release of the watch that was there. -/
def forget (id : GroupId) (acc : Watcher × K) : Watcher × K :=
  let (w,k) := acc
  match w.setGroups[id]? with
  | some wd => release sys wd ({w with setGroups := w.setGroups.erase id},k)
  | none => (w,k)

/-- `set_groups.insert`, and the release of another watch that was there. -/
def replace (id : GroupId) (wd : ℕ) (acc : Watcher × K) : Watcher × K :=
  let (w,k) := acc
  let w' := {w with setGroups := w.setGroups.insert id wd}
  match w.setGroups[id]? with
  | some old => if old ≠ wd then release sys old (w',k) else (w',k)
  | none => (w',k)

/-- `watches.entry(wd).or_insert_with`: a label that is there stays. -/
def label (wd : ℕ) (what : Watched) (w : Watcher) : Watcher :=
  if wd ∈ w.watches then w else {w with watches := w.watches.insert wd what}

/-- One iteration of the loop over the current directories in `sync`. -/
def watchDir (acc : Watcher × K) (entry : GroupId × AbsPath) : Watcher × K :=
  match sys.addWatch entry.2 true acc.2 with
  | (.error .noent,k) => forget sys entry.1 (acc.1,k)
  | (.error _,k) => (acc.1,k)
  | (.ok wd,k) =>
    let (w,k) := replace sys entry.1 wd (acc.1,k)
    (label wd (.group entry.1) w,k)

/-- The directories of set groups and the intermediate directories, by id. -/
def currentDirs (runtime : Runtime H) : ExtTreeMap GroupId AbsPath :=
  runtime.intermediates.toList.foldl (fun m entry => m.insert entry.1 entry.2)
    ((runtime.groups.toList.filter fun entry => entry.1.set.isSome).foldl
      (fun m entry => m.insert entry.1 entry.2.config.membership) ∅)

/-- `sync`. -/
def sync (runtime : Runtime H) (acc : Watcher × K) : Watcher × K :=
  let current := currentDirs runtime
  let gone := (acc.1.setGroups.toList.map Prod.fst).filter fun id => id ∉ current
  current.toList.foldl (watchDir sys) (gone.foldl (fun acc id => forget sys id acc) acc)

/-- `watches.insert`. -/
def watch (wd : ℕ) (what : Watched) (w : Watcher) : Watcher :=
  {w with watches := w.watches.insert wd what}

/-- One iteration of the loops of `new`; the first error ends it. -/
def watchConfigured (message : Errno → String) (path : AbsPath) (what : Watched)
    (acc : Except String Watcher × K) : Except String Watcher × K :=
  match acc with
  | (.error e,k) => (.error e,k)
  | (.ok w,k) =>
    match sys.addWatch path false k with
    | (.error e,k) => (.error (message e),k)
    | (.ok wd,k) => (.ok (w.watch wd what),k)

def watchGroup (acc : Except String Watcher × K) (entry : GroupId × GroupRuntime H) :
    Except String Watcher × K :=
  let path := entry.2.config.membership
  watchConfigured sys (fun e => "cannot watch membership directory " ++ displayPath path ++
    " of group '" ++ String.ofList entry.1.display ++ "': " ++ sys.strerror e) path
    (.group entry.1) acc

def watchSet (acc : Except String Watcher × K) (entry : Name × SetRuntime H) :
    Except String Watcher × K :=
  let path := entry.2.config.membershipRoot
  watchConfigured sys (fun e => "cannot watch membership_root " ++ displayPath path ++
    " of group set '" ++ String.ofList entry.1.text ++ "': " ++ sys.strerror e) path
    (.setRoot entry.1) acc

/-- `Watcher::new`, before its call of `sync`. -/
def watchRoots (runtime : Runtime H) (k : K) : Except String Watcher × K :=
  runtime.sets.toList.foldl (watchSet sys)
    ((runtime.groups.toList.filter fun entry => entry.1.set.isNone).foldl (watchGroup sys)
      (.ok empty,k))

/-- `Watcher::new`. -/
def new (runtime : Runtime H) (k : K) : Except String Watcher × K :=
  match watchRoots sys runtime k with
  | (.error e,k) => (.error e,k)
  | (.ok w,k) =>
    let (w,k) := sync sys runtime (w,k)
    (.ok w,k)

/-- One event in `drain`. -/
def classifyEvent (w : Watcher) (changes : Changes) (e : InotifyEvent) : Changes :=
  if e.queueOverflow then {changes with overflow := true}
  else match w.watches[e.wd]? with
    | none => changes
    | some (.group id) =>
      if e.selfEvent && id.set.isNone then {changes with lost := insert id changes.lost}
      else {changes with membershipChanged := true}
    | some (.setRoot set) =>
      if e.selfEvent then {changes with lostSets := insert set changes.lostSets}
      else {changes with membershipChanged := true}

/-- The label is one of a group or set that was lost. -/
def isLost (changes : Changes) : Watched → Bool
  | .group id => id ∈ changes.lost
  | .setRoot set => set ∈ changes.lostSets

/-- The events of a batch. -/
def classify (w : Watcher) (events : List InotifyEvent) : Changes :=
  events.foldl w.classifyEvent .default

/-- `drain`: the pending events are read until there are none, or until an error. -/
def drain (w : Watcher) (events : List InotifyEvent) (failed : Option Errno) :
    Except Errno (Changes × Watcher) :=
  match failed with
  | some e => .error e
  | none =>
    let changes := w.classify events
    .ok (changes,{w with watches := w.watches.filter fun _ what => !isLost changes what})

end Watcher
end Byssus
