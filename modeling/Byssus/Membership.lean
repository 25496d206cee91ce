import Byssus.Name
import Byssus.Template
import Std.Data.ExtTreeSet.Lemmas

/-! Classification of the entries of membership directories, and what a pass notes. -/
namespace Byssus

/-- One byte of `escape_ascii`. -/
def escapeByte (b : UInt8) : Text :=
  let backslash := Char.ofNat 92
  if b = 9 then [backslash,'t']
  else if b = 13 then [backslash,'r']
  else if b = 10 then [backslash,'n']
  else if b = 39 ∨ b = 34 ∨ b = 92 then [backslash,charFrom b]
  else if 32 ≤ b ∧ b ≤ 126 then [charFrom b]
  else [backslash,'x',Nat.digitChar (b.toNat/16),Nat.digitChar (b.toNat%16)]

/-- `display_bytes`. -/
def displayBytes (bytes : List UInt8) : Text := bytes.flatMap escapeByte

/-- The type of a directory entry, as `statx` reports it. -/
inductive EntryKind
  | regular (size : ℕ)
  | directory
  | symlink
  | fifo
  | socket
  | charDevice
  | blockDevice
  | unknown
  deriving DecidableEq

inductive RejectReason
  | invalidName (error : NameError)
  | notRegularFile (kind : EntryKind)
  | notDirectory (kind : EntryKind)
  | notEmpty (size : ℕ)
  | inaccessible (error : String)
  deriving DecidableEq

structure Rejection where
  displayName : Text
  reason : RejectReason
  deriving DecidableEq

/-- `classify`: the member name of an accepted entry. -/
def classify (fileName : List UInt8) (kind : Except String EntryKind) : Except Rejection Name :=
  match Name.fromBytes fileName with
  | .error e => .error ⟨displayBytes fileName,.invalidName e⟩
  | .ok name =>
    match kind with
    | .error e => .error ⟨displayBytes fileName,.inaccessible e⟩
    | .ok (.regular size) =>
      if size = 0 then .ok name else .error ⟨displayBytes fileName,.notEmpty size⟩
    | .ok other => .error ⟨displayBytes fileName,.notRegularFile other⟩

structure Membership where
  members : Std.ExtTreeSet Name
  rejected : List Rejection
  ignored : List Text

/-- The byte `.`. -/
def dotByte : UInt8 := 46

/-- One iteration of `Membership::from_entries`. -/
def Membership.addEntry (m : Membership) (entry : List UInt8 × Except String EntryKind) :
    Membership :=
  let (fileName,kind) := entry
  if fileName = [dotByte] ∨ fileName = [dotByte,dotByte] then m
  else if fileName.head? = some dotByte then {m with ignored := m.ignored++[displayBytes fileName]}
  else match classify fileName kind with
    | .ok name => {m with members := m.members.insert name}
    | .error rejection => {m with rejected := m.rejected++[rejection]}

/-- `Membership::from_entries`. -/
def Membership.fromEntries (entries : List (List UInt8 × Except String EntryKind)) : Membership :=
  entries.foldl addEntry ⟨∅,[],[]⟩

/-- Something noticed while observing that is reported but not planned. -/
inductive Note
  | rejected (group : GroupId) (rejection : Rejection)
  | interpolationFailed (group : GroupId) (name : Name) (field : String) (error : InterpolateError)
  | setEntryRejected (set : Name) (rejection : Rejection)
  | setRootDeleted (set : Name)
  | setRootUnreadable (set : Name) (error : String)
  | membershipDeleted (group : GroupId)
  | membershipUnreadable (group : GroupId) (error : String)
  deriving DecidableEq

/-- `InterpolateError`, as displayed. -/
def InterpolateError.message : InterpolateError → String
  | .componentTooLong len => "interpolated path component is " ++ toString len ++
      " bytes long; the maximum is " ++ toString maxNameLen
  | .pathTooLong len => "interpolated path is " ++ toString len ++
      " bytes long; the maximum is " ++ toString maxPathLen
  | .invalidComponent component => "interpolated path component '" ++ String.ofList component ++
      "' is not a plain name"

end Byssus
