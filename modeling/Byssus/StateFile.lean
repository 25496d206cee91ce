import Byssus.Interpolation
import Byssus.Execute
import Byssus.ObserveSpec
import Byssus.Library.Json

/-! The state file: what `State::encode` writes, `State::decode` reads back.
`serde_json` and `jiff` are parameters; the readers of the records are the ones that
`derive(Deserialize)` makes. -/
namespace Byssus
open Json

/-- `STATE_VERSION`. -/
def stateVersion : ℕ := 1

structure StateDocument where
  version : ℕ
  mounts : List MountRecord
  deriving DecidableEq

/-- The document of a state, which lists its records in their order. -/
def State.document (s : State) : StateDocument := ⟨stateVersion,s.records⟩

inductive DecodeError
  | unsupportedVersion (version : ℕ)
  | malformed (message : String)
  deriving DecidableEq

/-- `Display`. -/
def DecodeError.message : DecodeError → String
  | .unsupportedVersion version => "unsupported state file version " ++ toString version ++
      " (this build supports version " ++ toString stateVersion ++ ")"
  | .malformed message => "malformed state file: " ++ message

/-- `Display`. -/
def RecordKey.display (k : RecordKey) : Text := k.group.display ++ '/'::k.name.text

/-- `serde_json` and `jiff`, as they are used on the state file. -/
structure FileFormat where
  toVecPretty : StateDocument → List UInt8
  fromSlice : List UInt8 → Except String Value
  shapeMessage : ShapeError → String
  renderTime : Timestamp → Text
  parseTime : Text → Except String Timestamp
  escapeDebug : Text → String

namespace FileFormat

variable (f : FileFormat)

/-! ### Writing -/

/-- The fields of a record in their order; a unique ID is left out where there is none. -/
def recordEntries (r : MountRecord) : List (String × Value) :=
  [("group",.string r.group.display),("name",.string r.name.text),
    ("source_root",.string r.sourceRoot.display),("source",.string r.source),
    ("target_root",.string r.targetRoot.display),("target",.string r.target),
    ("mnt_id",.number (.unsigned r.mntId))]++
  (match r.mntIdUnique with
    | some id => [("mnt_id_unique",.number (.unsigned id))]
    | none => [])++
  [("root_dev_major",.number (.unsigned r.rootDevMajor)),
    ("root_dev_minor",.number (.unsigned r.rootDevMinor)),
    ("root_ino",.number (.unsigned r.rootIno)),("read_only",.bool r.readOnly),
    ("noexec",.bool r.noexec),("nosymfollow",.bool r.nosymfollow),
    ("created_at",.string (f.renderTime r.createdAt))]

def documentEntries (doc : StateDocument) : List (String × Value) :=
  [("version",.number (.unsigned doc.version)),
    ("mounts",.array (doc.mounts.map fun r => objectOf (f.recordEntries r)))]

/-- The value that `derive(Serialize)` makes of a document. -/
def documentValue (doc : StateDocument) : Value := objectOf (f.documentEntries doc)

/-- `State::encode`. -/
def encode (s : State) : List UInt8 := f.toVecPretty s.document++[10]

/-! ### Reading -/

def readName : Reader Name := .parsed Name.new NameError.message

def readGroup : Reader GroupId := .parsed GroupId.parse NameError.message

def readAbsPath : Reader AbsPath := .parsed AbsPath.new AbsPathError.message

def readTime : Reader Timestamp := .parsed f.parseTime id

/-- The fields of `MountRecord`, each with what it accepts. -/
def recordFields : List (String × Reader Unit) :=
  [("group",readGroup.check),("name",readName.check),("source_root",readAbsPath.check),
    ("source",Reader.string.check),("target_root",readAbsPath.check),
    ("target",Reader.string.check),("mnt_id",(Reader.unsigned 64).check),
    ("mnt_id_unique",(Reader.optional (.unsigned 64)).check),
    ("root_dev_major",(Reader.unsigned 32).check),("root_dev_minor",(Reader.unsigned 32).check),
    ("root_ino",(Reader.unsigned 64).check),("read_only",Reader.bool.check),
    ("noexec",Reader.bool.check),("nosymfollow",Reader.bool.check),
    ("created_at",f.readTime.check)]

def buildRecord (missing : String → ShapeError) (entries : List (String × Value)) :
    Except ShapeError MountRecord := do
  let group ← required missing entries "group" readGroup
  let name ← required missing entries "name" readName
  let sourceRoot ← required missing entries "source_root" readAbsPath
  let source ← required missing entries "source" .string
  let targetRoot ← required missing entries "target_root" readAbsPath
  let target ← required missing entries "target" .string
  let mntId ← required missing entries "mnt_id" (.unsigned 64)
  let mntIdUnique ← defaulted none entries "mnt_id_unique" (.optional (.unsigned 64))
  let rootDevMajor ← required missing entries "root_dev_major" (.unsigned 32)
  let rootDevMinor ← required missing entries "root_dev_minor" (.unsigned 32)
  let rootIno ← required missing entries "root_ino" (.unsigned 64)
  let readOnly ← required missing entries "read_only" .bool
  let noexec ← required missing entries "noexec" .bool
  let nosymfollow ← required missing entries "nosymfollow" .bool
  let createdAt ← required missing entries "created_at" f.readTime
  .ok ⟨group,name,sourceRoot,source,targetRoot,target,mntId,mntIdUnique,rootDevMajor,
    rootDevMinor,rootIno,readOnly,noexec,nosymfollow,createdAt⟩

/-- `MountRecord::deserialize`. -/
def readRecord : Reader MountRecord := visitStruct f.recordFields f.buildRecord

def documentFields : List (String × Reader Unit) :=
  [("version",(Reader.unsigned 64).check),("mounts",(Reader.list f.readRecord).check)]

def buildDocument (missing : String → ShapeError) (entries : List (String × Value)) :
    Except ShapeError StateDocument := do
  let version ← required missing entries "version" (.unsigned 64)
  let mounts ← required missing entries "mounts" (.list f.readRecord)
  .ok ⟨version,mounts⟩

/-- `StateDocument::deserialize`. -/
def readDocument : Reader StateDocument := visitStruct f.documentFields f.buildDocument

/-- One iteration of the loop over the records in `decode`. -/
def insertDecoded (s : State) (r : MountRecord) : Except DecodeError State :=
  match [("source",r.source),("target",r.target)].find? fun p => !isCleanRelative p.2 with
  | some (field,path) => .error (.malformed ("record " ++ String.ofList r.key.display ++
      ": invalid " ++ field ++ " path '" ++ f.escapeDebug path ++ "'"))
  | none =>
    if (s.insert r).2.isSome then
      .error (.malformed ("duplicate record for " ++ String.ofList r.key.display))
    else .ok (s.insert r).1

/-- `State::decode`. -/
def decode (bytes : List UInt8) : Except DecodeError State :=
  match f.fromSlice bytes with
  | .error e => .error (.malformed e)
  | .ok value =>
    match value.get "version" with
    | none => .error (.malformed "missing 'version'")
    | some number =>
      match number.asUnsigned with
      | none => .error (.malformed "'version' is not an unsigned integer")
      | some version =>
        if version ≠ stateVersion then .error (.unsupportedVersion version)
        else match f.readDocument value with
          | .error e => .error (.malformed (f.shapeMessage e))
          | .ok doc => doc.mounts.foldlM f.insertDecoded .empty

end FileFormat

/-! ### What can be stored -/

/-- The integers are those of the record's types. -/
structure MountRecord.InRange (r : MountRecord) : Prop where
  mntId : r.mntId < 2^64
  mntIdUnique : ∀ id, r.mntIdUnique = some id → id < 2^64
  rootDevMajor : r.rootDevMajor < 2^32
  rootDevMinor : r.rootDevMinor < 2^32
  rootIno : r.rootIno < 2^64

/-- What the reader demands of a record. -/
structure MountRecord.Storable (r : MountRecord) : Prop where
  group : r.group.Valid
  source : isCleanRelative r.source = true
  target : isCleanRelative r.target = true
  inRange : r.InRange

/-- `serde_json` and `jiff` render and parse a document faithfully. -/
structure FileFormat.ReadsBack (f : FileFormat) (doc : StateDocument) : Prop where
  value : f.fromSlice (f.toVecPretty doc++[10]) = .ok (f.documentValue doc)
  times : ∀ r ∈ doc.mounts, f.parseTime (f.renderTime r.createdAt) = .ok r.createdAt

namespace FileFormat

variable {f : FileFormat}

variable (f) in
theorem recordEntries_nodup (r : MountRecord) : ((f.recordEntries r).map Prod.fst).Nodup := by
  cases h : r.mntIdUnique <;> simp [recordEntries,h]

/-- A record is read back from its entries. -/
theorem readRecord_written {r : MountRecord} (hg : r.group.Valid) (hr : r.InRange)
    (ht : f.parseTime (f.renderTime r.createdAt) = .ok r.createdAt) :
    f.readRecord (objectOf (f.recordEntries r)) = .ok r := by
  have hw := Written.objectOf (recordEntries_nodup f r)
  have hgroup : readGroup (.string r.group.display) = .ok r.group :=
    Reader.parsed_ok (GroupId.parse_display hg)
  have hname : readName (.string r.name.text) = .ok r.name := Reader.parsed_ok r.name.new_text
  have hpath : ∀ p : AbsPath, readAbsPath (.string p.display) = .ok p :=
    fun p => Reader.parsed_ok p.new_display
  have htext : ∀ s : Text, Reader.string (.string s) = .ok s := fun _ => rfl
  have hbool : ∀ b : Bool, Reader.bool (.bool b) = .ok b := fun _ => rfl
  have hid := Reader.unsigned_ok hr.mntId
  have hunique : ∀ id, r.mntIdUnique = some id →
      Reader.optional (.unsigned 64) (.number (.unsigned id)) = .ok (some id) :=
    fun id h => Reader.optional_ok (by simp) (Reader.unsigned_ok (hr.mntIdUnique id h))
  have hmajor := Reader.unsigned_ok hr.rootDevMajor
  have hminor := Reader.unsigned_ok hr.rootDevMinor
  have hino := Reader.unsigned_ok hr.rootIno
  have htime : f.readTime (.string (f.renderTime r.createdAt)) = .ok r.createdAt :=
    Reader.parsed_ok ht
  have hcheck : checkEntries f.recordFields
      ((f.recordEntries r).insertionSort fun a b => a.1 ≤ b.1) = .ok () := by
    apply hw.checked
    intro e he
    simp only [recordEntries,List.append_assoc,List.mem_append,List.mem_cons,List.not_mem_nil,
      or_false] at he
    rcases he with (rfl | rfl | rfl | rfl | rfl | rfl | rfl) | he |
      rfl | rfl | rfl | rfl | rfl | rfl | rfl
    · exact ⟨_,rfl,Reader.check_ok hgroup⟩
    · exact ⟨_,rfl,Reader.check_ok hname⟩
    · exact ⟨_,rfl,Reader.check_ok (hpath _)⟩
    · exact ⟨_,rfl,Reader.check_ok (htext _)⟩
    · exact ⟨_,rfl,Reader.check_ok (hpath _)⟩
    · exact ⟨_,rfl,Reader.check_ok (htext _)⟩
    · exact ⟨_,rfl,Reader.check_ok hid⟩
    · cases hu : r.mntIdUnique with
      | none => simp [hu] at he
      | some id =>
        simp only [hu,List.mem_singleton] at he
        subst he
        exact ⟨_,rfl,Reader.check_ok (hunique id hu)⟩
    · exact ⟨_,rfl,Reader.check_ok hmajor⟩
    · exact ⟨_,rfl,Reader.check_ok hminor⟩
    · exact ⟨_,rfl,Reader.check_ok hino⟩
    · exact ⟨_,rfl,Reader.check_ok (hbool _)⟩
    · exact ⟨_,rfl,Reader.check_ok (hbool _)⟩
    · exact ⟨_,rfl,Reader.check_ok (hbool _)⟩
    · exact ⟨_,rfl,Reader.check_ok htime⟩
  have hoptional : defaulted none ((f.recordEntries r).insertionSort fun a b => a.1 ≤ b.1)
      "mnt_id_unique" (.optional (.unsigned 64)) = .ok r.mntIdUnique := by
    cases hu : r.mntIdUnique with
    | none => exact hw.absent (by simp [recordEntries,hu])
    | some id => exact hw.present (by simp [recordEntries,hu]) (hunique id hu)
  simp only [readRecord,visitStruct,objectOf,hcheck,buildRecord,bind_ok_iff]
  refine ⟨r.group,hw.required ?_ hgroup,r.name,hw.required ?_ hname,
    r.sourceRoot,hw.required ?_ (hpath _),r.source,hw.required ?_ (htext _),
    r.targetRoot,hw.required ?_ (hpath _),r.target,hw.required ?_ (htext _),
    r.mntId,hw.required ?_ hid,r.mntIdUnique,hoptional,r.rootDevMajor,hw.required ?_ hmajor,
    r.rootDevMinor,hw.required ?_ hminor,r.rootIno,hw.required ?_ hino,
    r.readOnly,hw.required ?_ (hbool _),
    r.noexec,hw.required ?_ (hbool _),
    r.nosymfollow,hw.required ?_ (hbool _),
    r.createdAt,hw.required ?_ htime,rfl⟩
  all_goals simp [recordEntries]

/-- What a reader of records accepts is of the record's types. -/
theorem readRecord_inv {value : Value} {r : MountRecord} (h : f.readRecord value = .ok r) :
    r.group.Valid ∧ r.InRange := by
  obtain ⟨missing,entries,hb⟩ := visitStruct_inv h
  simp only [buildRecord,bind_ok_iff] at hb
  obtain ⟨group,hgroup,name,-,sourceRoot,-,source,-,targetRoot,-,target,-,mntId,hid,unique,hunique,
    major,hmajor,minor,hminor,ino,hino,readOnly,-,noexec,-,nosymfollow,-,createdAt,-,hr⟩ := hb
  cases hr
  obtain ⟨v,hv⟩ := required_inv hgroup
  obtain ⟨s,hs⟩ := Reader.parsed_inv hv
  have hlt : ∀ {bits n : ℕ} {key : String},
      required missing entries key (.unsigned bits) = .ok n → n < 2^bits := by
    intro bits n key hn
    obtain ⟨v,hv⟩ := required_inv hn
    exact Reader.unsigned_lt hv
  refine ⟨GroupId.parse_valid hs,hlt hid,?_,hlt hmajor,hlt hminor,hlt hino⟩
  intro id hid
  subst hid
  rcases defaulted_inv hunique with h | ⟨v,hv⟩
  · cases h
  · exact Reader.unsigned_lt (Reader.optional_inv hv)

/-- A document is read back from its value where its records can be. -/
theorem readDocument_written {doc : StateDocument} (hv : doc.version < 2^64)
    (hr : ∀ r ∈ doc.mounts, r.group.Valid ∧ r.InRange)
    (ht : ∀ r ∈ doc.mounts, f.parseTime (f.renderTime r.createdAt) = .ok r.createdAt) :
    f.readDocument (f.documentValue doc) = .ok doc := by
  have hn : ((f.documentEntries doc).map Prod.fst).Nodup := by simp [documentEntries]
  have hw := Written.objectOf hn
  have hversion := Reader.unsigned_ok hv
  have hmounts : Reader.list f.readRecord
      (.array (doc.mounts.map fun r => objectOf (f.recordEntries r))) = .ok doc.mounts := by
    have hmap := Reader.mapM_map_ok fun r hm => readRecord_written (hr r hm).1 (hr r hm).2 (ht r hm)
    rwa [List.map_id'] at hmap
  have hcheck : checkEntries f.documentFields
      ((f.documentEntries doc).insertionSort fun a b => a.1 ≤ b.1) = .ok () := by
    apply hw.checked
    intro e he
    simp only [documentEntries,List.mem_cons,List.not_mem_nil,or_false] at he
    rcases he with rfl | rfl
    · exact ⟨_,rfl,Reader.check_ok hversion⟩
    · exact ⟨_,rfl,Reader.check_ok hmounts⟩
  simp only [readDocument,visitStruct,documentValue,objectOf,hcheck,buildDocument,bind_ok_iff]
  refine ⟨doc.version,hw.required ?_ hversion,doc.mounts,hw.required ?_ hmounts,rfl⟩
  all_goals simp [documentEntries]

theorem readDocument_inv {value : Value} {doc : StateDocument}
    (h : f.readDocument value = .ok doc) :
    ∀ r ∈ doc.mounts, r.group.Valid ∧ r.InRange := by
  obtain ⟨missing,entries,hb⟩ := visitStruct_inv h
  simp only [buildDocument,bind_ok_iff] at hb
  obtain ⟨version,-,mounts,hmounts,hdoc⟩ := hb
  cases hdoc
  obtain ⟨v,hv⟩ := required_inv hmounts
  intro r hr
  cases v with
  | array values =>
    obtain ⟨w,hw⟩ := Reader.mapM_inv hv r hr
    exact readRecord_inv hw
  | _ => cases hv

/-! ### The records one by one -/

theorem insertDecoded_ok_iff {s t : State} {r : MountRecord} :
    f.insertDecoded s r = .ok t ↔ isCleanRelative r.source = true ∧
      isCleanRelative r.target = true ∧ s.get r.key = none ∧ t = (s.insert r).1 := by
  unfold insertDecoded
  cases hs : isCleanRelative r.source with
  | false => simp [hs]
  | true =>
    cases ht : isCleanRelative r.target with
    | false => simp [hs,ht]
    | true => cases hg : s.get r.key <;> simp [hs,ht,hg,eq_comm]

/-- The loop of `decode` accepts clean records with keys of their own, and keeps just these. -/
theorem foldlM_insertDecoded_iff {s t : State} {rs : List MountRecord} :
    rs.foldlM f.insertDecoded s = .ok t ↔
      (∀ r ∈ rs, isCleanRelative r.source = true ∧ isCleanRelative r.target = true) ∧
      (rs.map MountRecord.key).Nodup ∧ (∀ r ∈ rs, s.get r.key = none) ∧
      ∀ k r, t.get k = some r ↔ r ∈ rs ∧ r.key = k ∨ s.get k = some r := by
  induction rs generalizing s with
  | nil =>
    simp only [List.foldlM_nil,pure,Except.pure,Except.ok.injEq]
    constructor
    · rintro rfl
      simp
    · intro h
      apply State.ext
      intro k
      apply Option.ext
      intro r
      simpa using (h.2.2.2 k r).symm
  | cons r rs ih =>
    -- an insertion under a new key adds the record and keeps the others
    have hget : s.get r.key = none → ∀ k r', (s.insert r).1.get k = some r' ↔
        r' = r ∧ r'.key = k ∨ s.get k = some r' := by
      intro hnone k r'
      rw [State.get_insert]
      by_cases hk : r.key = k
      · subst hk
        simp only [if_pos,hnone,Option.some.injEq,reduceCtorEq,or_false]
        constructor
        · rintro rfl
          exact ⟨rfl,rfl⟩
        · exact fun h => h.1.symm
      · rw [if_neg hk]
        constructor
        · exact .inr
        · rintro (⟨rfl,h⟩ | h)
          · exact absurd h hk
          · exact h
    have hfree : s.get r.key = none → ∀ r' : MountRecord, (s.insert r).1.get r'.key = none ↔
        r'.key ≠ r.key ∧ s.get r'.key = none := by
      intro hnone r'
      rw [State.get_insert]
      by_cases hk : r.key = r'.key
      · simp [hk]
      · simp [hk,Ne.symm hk]
    rw [List.foldlM_cons,bind_ok_iff]
    simp only [insertDecoded_ok_iff,List.mem_cons,forall_eq_or_imp,List.map_cons,List.nodup_cons,
      List.mem_map,not_exists,not_and]
    constructor
    · rintro ⟨a,⟨hs,ht,hnone,rfl⟩,hrest⟩
      obtain ⟨hclean,hnodup,hnew,hall⟩ := ih.mp hrest
      refine ⟨⟨⟨hs,ht⟩,hclean⟩,⟨fun r' hr' => ((hfree hnone r').mp (hnew r' hr')).1,hnodup⟩,
        ⟨hnone,fun r' hr' => ((hfree hnone r').mp (hnew r' hr')).2⟩,?_⟩
      intro k r'
      rw [hall,hget hnone,or_and_right]
      exact or_left_comm.trans or_assoc.symm
    · rintro ⟨⟨⟨hs,ht⟩,hclean⟩,⟨hkeys,hnodup⟩,⟨hnone,hnew⟩,hall⟩
      refine ⟨_,⟨hs,ht,hnone,rfl⟩,ih.mpr ⟨hclean,hnodup,?_,?_⟩⟩
      · exact fun r' hr' => (hfree hnone r').mpr ⟨hkeys r' hr',hnew r' hr'⟩
      · intro k r'
        rw [hall,hget hnone,or_and_right]
        exact or_assoc.trans or_left_comm

/-- What `decode` accepts: a document of this version with clean records, each key once. -/
theorem decode_ok {bytes : List UInt8} {s : State} (h : f.decode bytes = .ok s) :
    ∃ value doc, f.fromSlice bytes = .ok value ∧ f.readDocument value = .ok doc ∧
      doc.mounts.foldlM f.insertDecoded .empty = .ok s := by
  unfold decode at h
  split at h
  · cases h
  · rename_i value hvalue
    split at h
    · cases h
    · split at h
      · cases h
      · split_ifs at h
        split at h
        · cases h
        · rename_i doc hdoc
          exact ⟨value,doc,hvalue,hdoc,h⟩

/-- The version is found in the written document. -/
theorem decode_written {s : State} (hf : f.ReadsBack s.document)
    (hs : ∀ r ∈ s.records, r.Storable) :
    f.decode (f.encode s) = s.records.foldlM f.insertDecoded .empty := by
  have hn : ((f.documentEntries s.document).map Prod.fst).Nodup := by simp [documentEntries]
  have hversion : (f.documentValue s.document).get "version" =
      some (.number (.unsigned stateVersion)) :=
    lookup_of_mem (Written.objectOf hn).nodup
      ((Written.objectOf hn).mem _ |>.mpr (by simp [documentEntries,State.document]))
  have hdoc : f.readDocument (f.documentValue s.document) = .ok s.document :=
    readDocument_written (show stateVersion < 2^64 by decide)
      (fun r hr => ⟨(hs r hr).group,(hs r hr).inRange⟩) hf.times
  unfold decode encode
  rw [hf.value]
  simp only [hversion,Value.asUnsigned,hdoc]
  rfl

theorem storable_round_trip {s : State} (hf : f.ReadsBack s.document)
    (hs : ∀ r ∈ s.records, r.Storable) : f.decode (f.encode s) = .ok s := by
  rw [decode_written hf hs,foldlM_insertDecoded_iff]
  refine ⟨fun r hr => ⟨(hs r hr).source,(hs r hr).target⟩,s.records_keys_nodup,by simp,?_⟩
  intro k r
  simp only [State.get_empty,reduceCtorEq,or_false]
  constructor
  · intro h
    exact ⟨State.mem_records_of_get h,State.key_of_get h⟩
  · rintro ⟨h,rfl⟩
    exact State.mem_records.mp h

end FileFormat

/-! ### The records that are made -/

/-- A mount of a member of a group: its paths are interpolated templates. -/
structure DesiredMount.Interpolated (d : DesiredMount) : Prop where
  group : d.key.group.Valid
  source : ∃ t : Template, t.depth = 0 ∧ t.interpolate d.key.name = .ok d.source.path
  target : ∃ t : Template, t.depth = 0 ∧ t.interpolate d.key.name = .ok d.target.path

theorem desiredMount_interpolated {group : GroupId} {config : GroupConfig} {name : Name}
    {d : DesiredMount} (hg : group.Valid) (h : desiredMount group config name = .ok d) :
    d.Interpolated := by
  obtain ⟨hs,-,ht,-⟩ := desiredMount_ok h
  have hkey := desiredMount_key h
  refine ⟨?_,⟨config.source,config.sourceBound,?_⟩,⟨config.target,config.targetBound,?_⟩⟩
  · rw [hkey]
    exact hg
  · rw [hkey]
    exact hs
  · rw [hkey]
    exact ht

/-- The identity `statx` reports, in the integers of its types. -/
structure MountIdentity.InRange (i : MountIdentity) : Prop where
  mntId : i.mntId < 2^64
  mntIdUnique : ∀ id, i.mntIdUnique = some id → id < 2^64
  devMajor : i.root.devMajor < 2^32
  devMinor : i.root.devMinor < 2^32
  ino : i.root.ino < 2^64

/-- The states reached by inserting records as `try_mount` makes them, and removing records. -/
inductive Recorded : State → Prop
  | empty : Recorded .empty
  | insert {s : State} {d : DesiredMount} {identity : MountIdentity} {now : Timestamp} :
      Recorded s → d.Interpolated → identity.InRange →
      Recorded (s.insert (newRecord d identity now)).1
  | remove {s : State} (k : RecordKey) : Recorded s → Recorded (s.remove k)

theorem newRecord_storable {d : DesiredMount} {identity : MountIdentity} {now : Timestamp}
    (hd : d.Interpolated) (hi : identity.InRange) : (newRecord d identity now).Storable where
  group := hd.group
  source := by
    obtain ⟨t,ht,hp⟩ := hd.source
    exact ((Template.interpolates ht _).joined _ hp).2.2
  target := by
    obtain ⟨t,ht,hp⟩ := hd.target
    exact ((Template.interpolates ht _).joined _ hp).2.2
  inRange := ⟨hi.mntId,hi.mntIdUnique,hi.devMajor,hi.devMinor,hi.ino⟩

theorem Recorded.storable {s : State} (h : Recorded s) : ∀ r ∈ s.records, r.Storable := by
  induction h with
  | empty =>
    intro r hr
    rw [State.mem_records,State.get_empty] at hr
    cases hr
  | insert _ hd hi ih =>
    intro r hr
    rw [State.mem_records,State.get_insert] at hr
    split_ifs at hr
    · cases hr
      exact newRecord_storable hd hi
    · exact ih r (State.mem_records.mpr hr)
  | remove k _ ih =>
    intro r hr
    rw [State.mem_records,State.get_remove] at hr
    split_ifs at hr
    exact ih r (State.mem_records.mpr hr)

/-- What is written is read back, and what is read has clean paths and is written back. -/
theorem state_file_round_trip (f : FileFormat) :
    (∀ s, Recorded s → f.ReadsBack s.document → f.decode (f.encode s) = .ok s) ∧
    (∀ bytes s, f.decode bytes = .ok s →
      (∃ value doc, f.fromSlice bytes = .ok value ∧ f.readDocument value = .ok doc ∧
        s.records.Perm doc.mounts ∧ (doc.mounts.map MountRecord.key).Nodup) ∧
      (∀ r ∈ s.records, ∀ path, path = r.source ∨ path = r.target → path ≠ [] ∧ nul ∉ path ∧
        ∀ c ∈ path.splitOn '/', c ≠ [] ∧ c ≠ ['.'] ∧ c ≠ ['.','.']) ∧
      (f.ReadsBack s.document → f.decode (f.encode s) = .ok s)) := by
  constructor
  · intro s hs hf
    exact FileFormat.storable_round_trip hf hs.storable
  · intro bytes s h
    obtain ⟨value,doc,hvalue,hdoc,hloop⟩ := FileFormat.decode_ok h
    obtain ⟨hclean,hnodup,-,hget⟩ := FileFormat.foldlM_insertDecoded_iff.mp hloop
    have hmem : ∀ r, r ∈ s.records ↔ r ∈ doc.mounts := by
      intro r
      rw [State.mem_records,hget]
      simp
    refine ⟨⟨value,doc,hvalue,hdoc,?_,hnodup⟩,?_,?_⟩
    · exact (List.perm_ext_iff_of_nodup s.records_keys_nodup.of_map hnodup.of_map).mpr hmem
    · intro r hr path hpath
      have hc : isCleanRelative path = true := by
        rcases hpath with rfl | rfl
        · exact (hclean r ((hmem r).mp hr)).1
        · exact (hclean r ((hmem r).mp hr)).2
      simpa [isCleanRelative,and_assoc] using hc
    · intro hf
      refine FileFormat.storable_round_trip hf fun r hr => ?_
      obtain ⟨hgroup,hrange⟩ := FileFormat.readDocument_inv hdoc r ((hmem r).mp hr)
      exact ⟨hgroup,(hclean r ((hmem r).mp hr)).1,(hclean r ((hmem r).mp hr)).2,hrange⟩

/-! ### The file of one mount -/
namespace SampleStateFile

theorem valid_group : ValidName "research".toList := by decide
theorem valid_member : ValidName "libcurl".toList := by decide

def group : Name := ⟨"research".toList,valid_group⟩
def member : Name := ⟨"libcurl".toList,valid_member⟩
def createdAt : Timestamp := 1789223401000000000
def identity : MountIdentity := ⟨4132,some 2147487780,8,1,1842211⟩

def desired : DesiredMount where
  key := ⟨.statically group,member⟩
  source := ⟨⟨["srv".toList,"example".toList,"projects".toList],by decide⟩,"libcurl/workspace".toList⟩
  target := ⟨⟨["srv".toList,"example".toList,"groups".toList,"view".toList],by decide⟩,
    "libcurl".toList⟩
  attrs := .default

def record : MountRecord := newRecord desired identity createdAt
def state : State := (State.empty.insert record).1
def document : StateDocument := ⟨stateVersion,[record]⟩

def text : List UInt8 := List.flatMap String.utf8EncodeChar "\x7b
  \"version\": 1,
  \"mounts\": [
    \x7b
      \"group\": \"research\",
      \"name\": \"libcurl\",
      \"source_root\": \"/srv/example/projects\",
      \"source\": \"libcurl/workspace\",
      \"target_root\": \"/srv/example/groups/view\",
      \"target\": \"libcurl\",
      \"mnt_id\": 4132,
      \"mnt_id_unique\": 2147487780,
      \"root_dev_major\": 8,
      \"root_dev_minor\": 1,
      \"root_ino\": 1842211,
      \"read_only\": true,
      \"noexec\": true,
      \"nosymfollow\": false,
      \"created_at\": \"2026-09-12T14:30:01Z\"
    \x7d
  ]
\x7d".toList

def createdText : Text := "2026-09-12T14:30:01Z".toList

/-- The writer and the parsers, on this file and its only timestamp. -/
def writer : FileFormat where
  toVecPretty doc := if doc = document then text else []
  fromSlice _ := .error ""
  shapeMessage _ := ""
  renderTime t := if t = createdAt then createdText else []
  parseTime s := if s = createdText then .ok createdAt else .error "invalid timestamp"
  escapeDebug := String.ofList

def format : FileFormat := {writer with
  fromSlice := fun bytes => if bytes = text++[10] then .ok (writer.documentValue document)
    else .error "expected value"}

theorem state_document : state.document = document := by decide +kernel

theorem readsBack : format.ReadsBack state.document := by
  rw [state_document]
  constructor
  · have hwrite : format.toVecPretty document = text := by simp [format,writer]
    have hread : ∀ bytes, bytes = text++[10] →
        format.fromSlice bytes = .ok (writer.documentValue document) := fun _ h => if_pos h
    have hvalue : format.documentValue document = writer.documentValue document := by
      unfold FileFormat.documentValue FileFormat.documentEntries FileFormat.recordEntries
      rfl
    rw [hwrite,hvalue]
    exact hread _ rfl
  · intro r hr
    cases List.mem_singleton.mp hr
    rfl

theorem interpolated : desired.Interpolated := by
  have hpath : ∀ (raw : String) {p : Text},
      ((Template.parse raw.toList).toOption.bind fun t => (t.interpolate member).toOption) = some p →
      ∃ t : Template, t.depth = 0 ∧ t.interpolate member = .ok p := by
    intro raw p h
    obtain ⟨t,ht,hp⟩ := Option.bind_eq_some_iff.mp h
    exact ⟨t,Template.parse_depth (Program.ok_of_toOption ht),Program.ok_of_toOption hp⟩
  exact ⟨(rfl : [group].length = 1),hpath "\x7bname\x7d/workspace" (by decide +kernel),
    hpath "\x7bname\x7d" (by decide +kernel)⟩

theorem recorded : Recorded state :=
  .insert .empty interpolated ⟨by decide,by decide +revert,by decide,by decide,by decide⟩

theorem state_file_round_trip_run :
    state ≠ .empty ∧ format.decode (format.encode state) = .ok state ∧
      ∀ r ∈ state.records, nul ∉ r.source := by
  have hdecode := (state_file_round_trip format).1 state recorded readsBack
  refine ⟨?_,hdecode,?_⟩
  · intro h
    have hrecords := congrArg State.document h
    rw [state_document] at hrecords
    exact absurd hrecords (by decide +kernel)
  · intro r hr
    exact (((state_file_round_trip format).2 _ state hdecode).2.1 r hr r.source (.inl rfl)).2.1

end SampleStateFile
end Byssus
