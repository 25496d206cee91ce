import Byssus.Observe

/-! The texts of notes, and the log that reports each of them once. -/
namespace Byssus

/-- `Display`. -/
def EntryKind.display : EntryKind → String
  | .regular _ => "regular file"
  | .directory => "directory"
  | .symlink => "symbolic link"
  | .fifo => "FIFO"
  | .socket => "socket"
  | .charDevice => "character device"
  | .blockDevice => "block device"
  | .unknown => "unknown file type"

/-- `Display`. -/
def RejectReason.message : RejectReason → String
  | .invalidName error => "name fails allowlist: " ++ error.message
  | .notRegularFile kind => "not a regular file (" ++ kind.display ++ ")"
  | .notDirectory kind => "not a directory (" ++ kind.display ++ ")"
  | .notEmpty size => "file is not empty (" ++ toString size ++ " bytes)"
  | .inaccessible error => "cannot inspect entry: " ++ error

/-- How an interpolation that failed is described. -/
def templateMessage (field : String) (error : InterpolateError) : String :=
  field ++ " template: " ++ error.message

/-- `note_identity`: what the note is about, its label and subject, and its detail. -/
def noteIdentity : Note → (Text × Text) × String
  | .rejected group rejection => ((group.display,rejection.displayName),rejection.reason.message)
  | .interpolationFailed group name field error =>
    ((group.display,name.text),templateMessage field error)
  | .membershipDeleted group => ((group.display,[]),"deleted")
  | .membershipUnreadable group error => ((group.display,[]),error)
  | .setEntryRejected set rejection =>
    ((setLabel set.text,rejection.displayName),rejection.reason.message)
  | .setRootDeleted set => ((setLabel set.text,[]),"deleted")
  | .setRootUnreadable set error => ((setLabel set.text,[]),error)

/-- A change in the active notes. -/
inductive NoteEvent
  /-- A note that is new, or whose detail changed. -/
  | raised (note : Note)
  /-- A note that was reported no longer applies. -/
  | cleared (group subject : Text)
  deriving DecidableEq

/-- Pairs of strings are ordered as tuples are. -/
abbrev noteOrder : Text × Text → Text × Text → Ordering :=
  compareLex (compareOn Prod.fst) (compareOn Prod.snd)

instance : Std.TransCmp noteOrder := inferInstance

instance : Std.LawfulEqCmp noteOrder :=
  KeyOrder.lawfulEq_compareLex fun _ _ h₁ h₂ => Prod.ext h₁ h₂

/-- The reported notes: the detail of each label and subject. -/
abbrev ActiveNotes := Std.ExtTreeMap (Text × Text) String noteOrder

structure NoteLog where
  active : ActiveNotes

/-- `NoteLog::default`. -/
def NoteLog.empty : NoteLog := ⟨∅⟩

/-- The labels whose notes are taken from this pass, apart from those of its notes. -/
def Observed.examined (observed : Observed) : Finset Text :=
  (observed.members.keys.map GroupId.display).toFinset ∪
    observed.scannedSets.image fun set => setLabel set.text

/-- What `update` has put together so far. -/
structure NoteUpdate where
  events : List NoteEvent
  current : ActiveNotes
  examined : Finset Text

/-- One iteration of the loop over the notes. -/
def NoteLog.raise (log : NoteLog) (u : NoteUpdate) (note : Note) : NoteUpdate :=
  let (key,detail) := noteIdentity note
  { events := if log.active[key]? ≠ some detail then u.events++[.raised note] else u.events
    current := u.current.insert key detail
    examined := insert key.1 u.examined }

/-- One iteration of the loop over the active notes. -/
def NoteUpdate.keep (u : NoteUpdate) (entry : (Text × Text) × String) : NoteUpdate :=
  if entry.1 ∈ u.current then u
  else if entry.1.1 ∈ u.examined then
    {u with events := u.events++[.cleared entry.1.1 entry.1.2]}
  else {u with current := u.current.insert entry.1 entry.2}

/-- `NoteLog::update`: the new log, and what changed. -/
def NoteLog.update (log : NoteLog) (observed : Observed) : NoteLog × List NoteEvent :=
  let u := observed.notes.foldl log.raise ⟨[],∅,observed.examined⟩
  let u := log.active.toList.foldl NoteUpdate.keep u
  (⟨u.current⟩,u.events)

end Byssus
