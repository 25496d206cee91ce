import Byssus.Membership
import Byssus.OsPath

/-! The parser of `/proc/<pid>/mountinfo`.
It reads back what the kernel writes: the fields of a line are split before they are
unescaped, so no byte of a path can end its field. -/
namespace Byssus.Mountinfo

def space : UInt8 := 32
def newline : UInt8 := 10
def backslash : UInt8 := 92
def hyphen : UInt8 := 45

/-- `Propagation`, derived from the optional fields. -/
inductive Propagation
  | private_
  | shared (peerGroup : UInt64)
  | slave (master : UInt64)
  | sharedAndSlave (peerGroup master : UInt64)
  | unbindable
  deriving DecidableEq

structure MountInfo where
  mountId : UInt64
  parentId : UInt64
  major : UInt32
  minor : UInt32
  root : PathBuf
  mountPoint : PathBuf
  mountOptions : Text
  propagation : Propagation
  optionalFields : List Text
  fsType : Text
  source : List UInt8
  superOptions : Text
  deriving DecidableEq

structure ParseError where
  line : ℕ
  reason : String
  deriving DecidableEq

/-- `text`: what is no UTF-8 is replaced. -/
def text (field : List UInt8) : Text := (decode field).map fun c => c.getD (Char.ofNat 0xfffd)

/-- `str::parse` for an unsigned integer below the limit. -/
def parseUnsigned (limit : ℕ) (s : Text) : Option ℕ :=
  let digits := if s.head? = some '+' then s.tail else s
  if digits = [] then none
  else if digits.all Char.isDigit = true then
    let n := Nat.ofDigitChars 10 digits 0
    if n < limit then some n else none
  else none

def parseNum (limit : ℕ) (field : List UInt8) (what : String) : Except String ℕ :=
  match (toStr field).bind (parseUnsigned limit) with
  | some n => .ok n
  | none => .error ("invalid " ++ what ++ " '" ++ String.ofList (displayBytes field) ++ "'")

/-- `parse_num` at `u64`. -/
def parseU64 (field : List UInt8) (what : String) : Except String UInt64 :=
  (parseNum UInt64.size field what).map UInt64.ofNat

/-- `parse_num` at `u32`. -/
def parseU32 (field : List UInt8) (what : String) : Except String UInt32 :=
  (parseNum UInt32.size field what).map UInt32.ofNat

/-- `str::split_once`. -/
def splitOnce (c : Char) (s : Text) : Option (Text × Text) :=
  if c ∈ s then some (s.takeWhile (· ≠ c),(s.dropWhile (· ≠ c)).tail) else none

/-- `str::strip_prefix`. -/
def stripPrefix (lead s : Text) : Option Text :=
  if lead <+: s then some (s.drop lead.length) else none

/-! The texts of the optional fields. -/

def sharedLead : Text := ['s','h','a','r','e','d',':']
def masterLead : Text := ['m','a','s','t','e','r',':']
def propagateFromLead : Text := ['p','r','o','p','a','g','a','t','e','_','f','r','o','m',':']
def unbindableField : Text := ['u','n','b','i','n','d','a','b','l','e']

/-- What the loop of `classify_propagation` has found. -/
structure Peers where
  shared : Option UInt64
  master : Option UInt64
  unbindable : Bool
  deriving DecidableEq

def noPeers : Peers := ⟨none,none,false⟩

/-- One iteration of the loop of `classify_propagation`. -/
def classifyField (peers : Peers) (field : Text) : Except String Peers :=
  match stripPrefix sharedLead field with
  | some v => (parseU64 (pathOf v) "shared peer group").map fun n => { peers with shared := some n }
  | none =>
    match stripPrefix masterLead field with
    | some v =>
      (parseU64 (pathOf v) "master peer group").map fun n => { peers with master := some n }
    | none => .ok (if field = unbindableField then { peers with unbindable := true } else peers)

/-- The last `match` of `classify_propagation`. -/
def Peers.propagation : Peers → Propagation
  | ⟨_,_,true⟩ => .unbindable
  | ⟨some peerGroup,some master,false⟩ => .sharedAndSlave peerGroup master
  | ⟨some peerGroup,none,false⟩ => .shared peerGroup
  | ⟨none,some master,false⟩ => .slave master
  | ⟨none,none,false⟩ => .private_

def classifyPropagation (optional : List Text) : Except String Propagation :=
  (optional.foldlM classifyField noPeers).map Peers.propagation

def isOctal (b : UInt8) : Bool := 48 ≤ b && b ≤ 55

def octalValue (digits : List UInt8) : ℕ := digits.foldl (fun acc d => acc*8+(d.toNat-48)) 0

/-- The loop of `unescape`; `field` is the whole input as it is shown in errors. -/
def unescapeLoop (field : String) : List UInt8 → Except String (List UInt8)
  | [] => .ok []
  | b::rest =>
    if b = backslash then
      match rest with
      | d₁::d₂::d₃::rest =>
        if [d₁,d₂,d₃].all isOctal = true then
          let value := octalValue [d₁,d₂,d₃]
          if value < UInt8.size then
            (unescapeLoop field rest).map fun out => UInt8.ofNat value::out
          else .error ("escape out of range in '" ++ field ++ "'")
        else .error ("invalid escape sequence in '" ++ field ++ "'")
      | _ => .error ("invalid escape sequence in '" ++ field ++ "'")
    else (unescapeLoop field rest).map fun out => b::out

/-- `unescape`. -/
def unescape (bytes : List UInt8) : Except String (List UInt8) :=
  unescapeLoop (String.ofList (displayBytes bytes)) bytes

/-- `parse_line`. -/
def parseLine (line : List UInt8) : Except String MountInfo :=
  let fields := line.splitOn space
  match fields.findIdx? (· = [hyphen]) with
  | none => .error "missing '-' separator"
  | some separator =>
    if separator < 6 then
      .error ("expected at least 6 fields before the separator, found " ++ toString separator)
    else if fields.length ≠ separator+4 then
      .error ("expected 3 fields after the separator, found " ++
        toString (fields.length-separator-1))
    else do
      let field := fun i => fields.getD i []
      let mountId ← parseU64 (field 0) "mount ID"
      let parentId ← parseU64 (field 1) "parent ID"
      let device := text (field 2)
      let (major,minor) ← match splitOnce ':' device with
        | some pair => .ok pair
        | none => .error ("invalid device number '" ++ String.ofList device ++ "'")
      let major ← parseU32 (pathOf major) "device major"
      let minor ← parseU32 (pathOf minor) "device minor"
      let optionalFields := ((fields.take separator).drop 6).map text
      let propagation ← classifyPropagation optionalFields
      let root ← unescape (field 3)
      let mountPoint ← unescape (field 4)
      let source ← unescape (field (separator+2))
      return {
        mountId, parentId, major, minor, root, mountPoint, mountOptions := text (field 5)
        propagation, optionalFields, fsType := text (field (separator+1))
        source, superOptions := text (field (separator+3)) }

/-- The loop of `MountTable::parse` over the lines from an index on. -/
def parseLines : List (List UInt8) → ℕ → Except ParseError (List MountInfo)
  | [], _ => .ok []
  | line::rest, index =>
    if line = [] then parseLines rest (index+1)
    else match parseLine line with
      | .error reason => .error ⟨index+1,reason⟩
      | .ok entry => (parseLines rest (index+1)).map (entry::·)

/-- `MountTable::parse`. -/
def parse (content : List UInt8) : Except ParseError (List MountInfo) :=
  parseLines (content.splitOn newline) 0

/-! ### The kernel's format -/

/-- An optional field of a mount. -/
inductive Tag
  | shared (n : UInt64)
  | master (n : UInt64)
  | propagateFrom (n : UInt64)
  | unbindable
  | other (text : Text)
  deriving DecidableEq

def decimal (n : ℕ) : Text := Nat.toDigits 10 n

def Tag.field : Tag → Text
  | .shared n => sharedLead++decimal n.toNat
  | .master n => masterLead++decimal n.toNat
  | .propagateFrom n => propagateFromLead++decimal n.toNat
  | .unbindable => unbindableField
  | .other text => text

/-- What tells the optional fields apart. -/
def Tag.name : Tag → Text
  | .shared _ => sharedLead
  | .master _ => masterLead
  | .propagateFrom _ => propagateFromLead
  | .unbindable => unbindableField
  | .other text => text

/-- The propagation class, by which of the tags are present. -/
inductive TagClass (tags : List Tag) : Propagation → Prop
  | unbindable (hu : .unbindable ∈ tags) : TagClass tags .unbindable
  | sharedAndSlave {n k : UInt64} (hu : .unbindable ∉ tags) (hs : .shared n ∈ tags)
      (hm : .master k ∈ tags) : TagClass tags (.sharedAndSlave n k)
  | shared {n : UInt64} (hu : .unbindable ∉ tags) (hs : .shared n ∈ tags)
      (hm : ∀ k, .master k ∉ tags) : TagClass tags (.shared n)
  | slave {k : UInt64} (hu : .unbindable ∉ tags) (hs : ∀ n, .shared n ∉ tags)
      (hm : .master k ∈ tags) : TagClass tags (.slave k)
  | private_ (hu : .unbindable ∉ tags) (hs : ∀ n, .shared n ∉ tags)
      (hm : ∀ k, .master k ∉ tags) : TagClass tags .private_

structure Mount where
  mountId : UInt64
  parentId : UInt64
  major : UInt32
  minor : UInt32
  root : List UInt8
  mountPoint : List UInt8
  mountOptions : Text
  tags : List Tag
  fsType : Text
  source : List UInt8
  superOptions : Text

/-- `\ooo` for the bytes that separate fields and lines, and for the backslash. -/
def escapeByte (b : UInt8) : List UInt8 :=
  if b = space ∨ b = 9 ∨ b = newline ∨ b = backslash then
    [backslash,48+b/64,48+b/8%8,48+b%8]
  else [b]

def escape (bytes : List UInt8) : List UInt8 := bytes.flatMap escapeByte

namespace Mount

/-- The fields before the separator. -/
def head (m : Mount) : List (List UInt8) :=
  [pathOf (decimal m.mountId.toNat),pathOf (decimal m.parentId.toNat),
    pathOf (decimal m.major.toNat++ ':'::decimal m.minor.toNat),escape m.root,
    escape m.mountPoint,pathOf m.mountOptions]++m.tags.map fun t => pathOf t.field

def fields (m : Mount) : List (List UInt8) :=
  m.head++[[hyphen],pathOf m.fsType,escape m.source,pathOf m.superOptions]

def render (m : Mount) : List UInt8 := List.intercalate [space] m.fields

/-- The entry of the table for the mount. -/
def info (m : Mount) (propagation : Propagation) : MountInfo where
  mountId := m.mountId
  parentId := m.parentId
  major := m.major
  minor := m.minor
  root := m.root
  mountPoint := m.mountPoint
  mountOptions := m.mountOptions
  propagation := propagation
  optionalFields := m.tags.map Tag.field
  fsType := m.fsType
  source := m.source
  superOptions := m.superOptions

/-- The entry that the table should have for the mount. -/
def Reads (m : Mount) (info : MountInfo) : Prop :=
  ∃ propagation, TagClass m.tags propagation ∧ info = m.info propagation

end Mount

/-- The whole file, a line for each mount. -/
def render (mounts : List Mount) : List UInt8 := mounts.flatMap fun m => m.render++[newline]

/-- A text that is one field of one line. -/
structure Word (s : Text) : Prop where
  noSpace : ' ' ∉ s
  noNewline : '\n' ∉ s

/-- What the format cannot express is excluded: a field `-` before the separator, and
two optional fields of one kind. -/
structure Mount.Describable (m : Mount) : Prop where
  root : m.root ≠ [hyphen]
  mountPoint : m.mountPoint ≠ [hyphen]
  mountOptions : Word m.mountOptions ∧ m.mountOptions ≠ ['-']
  fsType : Word m.fsType
  superOptions : Word m.superOptions
  other : ∀ text, Tag.other text ∈ m.tags → Word text ∧ text ≠ ['-'] ∧
    ¬sharedLead <+: text ∧ ¬masterLead <+: text ∧ text ≠ unbindableField
  once : (m.tags.map Tag.name).Nodup

/-! ### Bytes and texts -/

theorem Word.field {s : Text} (h : Word s) : space ∉ pathOf s ∧ newline ∉ pathOf s :=
  ⟨fun hs => h.noSpace (mem_of_mem_pathOf (b := space) (by decide) hs),
    fun hs => h.noNewline (mem_of_mem_pathOf (b := newline) (by decide) hs)⟩

@[simp] theorem text_pathOf (s : Text) : text (pathOf s) = s := by
  simp [text,decode_pathOf,Function.comp_def]

theorem pathOf_ne_hyphen {s : Text} (h : s ≠ ['-']) : pathOf s ≠ [hyphen] := by
  intro heq
  have hhyphen : pathOf ['-'] = [hyphen] := by decide
  have htext := congrArg text (heq.trans hhyphen.symm)
  rw [text_pathOf,text_pathOf] at htext
  exact h htext

/-! ### Numbers -/

theorem isDigit_of_mem_decimal {n : ℕ} {c : Char} (h : c ∈ decimal n) : c.isDigit = true :=
  Nat.isDigit_of_mem_toDigits (by decide) (by decide) h

theorem decimal_ne_nil (n : ℕ) : decimal n ≠ [] := Nat.toDigits_ne_nil

theorem notMem_decimal {n : ℕ} {c : Char} (hc : c.isDigit = false) : c ∉ decimal n := by
  intro h
  rw [isDigit_of_mem_decimal h] at hc
  cases hc

theorem word_decimal (n : ℕ) : Word (decimal n) :=
  ⟨notMem_decimal (by decide),notMem_decimal (by decide)⟩

theorem parseUnsigned_decimal {limit n : ℕ} (h : n < limit) :
    parseUnsigned limit (decimal n) = some n := by
  have hplus : (decimal n).head? ≠ some '+' := fun hp =>
    notMem_decimal (c := '+') (by decide) (List.mem_of_head? hp)
  have hall : (decimal n).all Char.isDigit = true :=
    List.all_eq_true.mpr fun c hc => isDigit_of_mem_decimal hc
  have hvalue : Nat.ofDigitChars 10 (decimal n) 0 = n := Nat.ofDigitChars_ten_toDigits
  simp only [parseUnsigned,if_neg hplus,if_neg (decimal_ne_nil n),hall,if_true,hvalue,if_pos h]

theorem parseNum_decimal {limit n : ℕ} (h : n < limit) (what : String) :
    parseNum limit (pathOf (decimal n)) what = .ok n := by
  simp [parseNum,parseUnsigned_decimal h]

@[simp] theorem parseU64_decimal (n : UInt64) (what : String) :
    parseU64 (pathOf (decimal n.toNat)) what = .ok n := by
  rw [parseU64,parseNum_decimal n.toNat_lt]
  simp [Except.map]

@[simp] theorem parseU32_decimal (n : UInt32) (what : String) :
    parseU32 (pathOf (decimal n.toNat)) what = .ok n := by
  rw [parseU32,parseNum_decimal n.toNat_lt]
  simp [Except.map]

theorem splitOnce_decimal (n : ℕ) (rest : Text) :
    splitOnce ':' (decimal n++ ':'::rest) = some (decimal n,rest) := by
  have hcolon : ∀ c ∈ decimal n, (decide (c ≠ ':')) = true := by
    intro c hc
    have hne : c ≠ ':' := by
      rintro rfl
      exact notMem_decimal (by decide) hc
    simp [hne]
  rw [splitOnce,if_pos (by simp),List.takeWhile_append_of_pos hcolon,
    List.dropWhile_append_of_pos hcolon]
  simp

/-! ### Escapes -/

theorem escapeByte_of_plain {b : UInt8}
    (h : ¬(b = space ∨ b = 9 ∨ b = newline ∨ b = backslash)) : escapeByte b = [b] := if_neg h

/-- The loop undoes the escape of a byte. -/
theorem unescapeLoop_escapeByte (field : String) (b : UInt8) (rest : List UInt8) :
    unescapeLoop field (escapeByte b++rest) =
      (unescapeLoop field rest).map fun out => b::out := by
  by_cases h : b = space ∨ b = 9 ∨ b = newline ∨ b = backslash
  · rcases h with rfl | rfl | rfl | rfl <;> rfl
  · have hb : b ≠ backslash := fun hb => h (.inr (.inr (.inr hb)))
    rw [escapeByte_of_plain h,List.singleton_append,unescapeLoop.eq_def]
    exact if_neg hb

theorem unescapeLoop_escape (field : String) (bytes : List UInt8) :
    unescapeLoop field (escape bytes) = .ok bytes := by
  induction bytes with
  | nil => rfl
  | cons b bytes ih =>
    rw [escape,List.flatMap_cons,unescapeLoop_escapeByte]
    have htail : unescapeLoop field (bytes.flatMap escapeByte) = .ok bytes := ih
    rw [htail]
    rfl

@[simp] theorem unescape_escape (bytes : List UInt8) : unescape (escape bytes) = .ok bytes :=
  unescapeLoop_escape _ bytes

theorem escape_field (bytes : List UInt8) : space ∉ escape bytes ∧ newline ∉ escape bytes := by
  have hbyte : ∀ b, space ∉ escapeByte b ∧ newline ∉ escapeByte b := by
    intro b
    by_cases h : b = space ∨ b = 9 ∨ b = newline ∨ b = backslash
    · rcases h with rfl | rfl | rfl | rfl <;> decide
    · rw [escapeByte_of_plain h,List.mem_singleton,List.mem_singleton]
      exact ⟨fun hb => h (.inl hb.symm),fun hb => h (.inr (.inr (.inl hb.symm)))⟩
  constructor
  · intro h
    obtain ⟨b,-,hb⟩ := List.mem_flatMap.mp h
    exact (hbyte b).1 hb
  · intro h
    obtain ⟨b,-,hb⟩ := List.mem_flatMap.mp h
    exact (hbyte b).2 hb

theorem escape_ne_hyphen {bytes : List UInt8} (h : bytes ≠ [hyphen]) :
    escape bytes ≠ [hyphen] := by
  intro heq
  have hback := unescapeLoop_escape "" bytes
  rw [heq] at hback
  have hhyphen : unescapeLoop "" [hyphen] = .ok [hyphen] := rfl
  rw [hhyphen,Except.ok.injEq] at hback
  exact h hback.symm

/-! ### The optional fields -/

theorem stripPrefix_append (lead s : Text) : stripPrefix lead (lead++s) = some s := by
  rw [stripPrefix,if_pos (List.prefix_append _ _),List.drop_left]

theorem stripPrefix_none {lead s : Text} (h : ¬lead <+: s) : stripPrefix lead s = none := if_neg h

/-- `N` of `shared:N`. -/
def Tag.sharedGroup : Tag → Option UInt64
  | .shared n => some n
  | _ => none

/-- `N` of `master:N`. -/
def Tag.masterGroup : Tag → Option UInt64
  | .master n => some n
  | _ => none

/-- The peer groups that the tags name. -/
def tagPeers (tags : List Tag) : Peers where
  shared := tags.findSome? Tag.sharedGroup
  master := tags.findSome? Tag.masterGroup
  unbindable := .unbindable ∈ tags

theorem findSome?_sharedGroup (tags : List Tag) :
    (∀ n, tags.findSome? Tag.sharedGroup = some n → .shared n ∈ tags) ∧
      (tags.findSome? Tag.sharedGroup = none → ∀ n, .shared n ∉ tags) := by
  constructor
  · intro n h
    obtain ⟨t,ht,hn⟩ := List.exists_of_findSome?_eq_some h
    cases t <;> cases hn
    exact ht
  · intro h n hn
    cases List.findSome?_eq_none_iff.mp h _ hn

theorem findSome?_masterGroup (tags : List Tag) :
    (∀ k, tags.findSome? Tag.masterGroup = some k → .master k ∈ tags) ∧
      (tags.findSome? Tag.masterGroup = none → ∀ k, .master k ∉ tags) := by
  constructor
  · intro k h
    obtain ⟨t,ht,hk⟩ := List.exists_of_findSome?_eq_some h
    cases t <;> cases hk
    exact ht
  · intro h k hk
    cases List.findSome?_eq_none_iff.mp h _ hk

/-- The last `match` of `classify_propagation` tells the class. -/
theorem tagClass_peers (tags : List Tag) : TagClass tags (tagPeers tags).propagation := by
  obtain ⟨hshared,hnoShared⟩ := findSome?_sharedGroup tags
  obtain ⟨hmaster,hnoMaster⟩ := findSome?_masterGroup tags
  unfold tagPeers
  by_cases hu : Tag.unbindable ∈ tags
  · simp only [hu,decide_true]
    exact .unbindable hu
  simp only [hu,decide_false]
  cases hs : tags.findSome? Tag.sharedGroup with
  | none =>
    cases hm : tags.findSome? Tag.masterGroup with
    | none => exact .private_ hu (hnoShared hs) (hnoMaster hm)
    | some k => exact .slave hu (hnoShared hs) (hmaster k hm)
  | some n =>
    cases hm : tags.findSome? Tag.masterGroup with
    | none => exact .shared hu (hshared n hs) (hnoMaster hm)
    | some k => exact .sharedAndSlave hu (hshared n hs) (hmaster k hm)

/-- What a tag adds to the peer groups. -/
def Tag.peers (peers : Peers) : Tag → Peers
  | .shared n => { peers with shared := some n }
  | .master n => { peers with master := some n }
  | .unbindable => { peers with unbindable := true }
  | .propagateFrom _ => peers
  | .other _ => peers

theorem classifyField_shared {field v : Text} (h : stripPrefix sharedLead field = some v)
    (peers : Peers) : classifyField peers field =
      (parseU64 (pathOf v) "shared peer group").map fun n => { peers with shared := some n } := by
  simp only [classifyField,h]

theorem classifyField_master {field v : Text} (hs : stripPrefix sharedLead field = none)
    (h : stripPrefix masterLead field = some v) (peers : Peers) : classifyField peers field =
      (parseU64 (pathOf v) "master peer group").map fun n => { peers with master := some n } := by
  simp only [classifyField,hs,h]

theorem classifyField_rest {field : Text} (hs : stripPrefix sharedLead field = none)
    (hm : stripPrefix masterLead field = none) (peers : Peers) : classifyField peers field =
      .ok (if field = unbindableField then { peers with unbindable := true } else peers) := by
  simp only [classifyField,hs,hm]

theorem classifyField_field {t : Tag} (h : ∀ text, t = .other text →
      ¬sharedLead <+: text ∧ ¬masterLead <+: text ∧ text ≠ unbindableField)
    (peers : Peers) : classifyField peers t.field = .ok (t.peers peers) := by
  have hlead : ∀ n : UInt64, ¬sharedLead <+: Tag.field (.master n) ∧
      ¬sharedLead <+: Tag.field (.propagateFrom n) ∧
      ¬masterLead <+: Tag.field (.propagateFrom n) := by
    intro n
    simp [Tag.field,sharedLead,masterLead,propagateFromLead]
  cases t with
  | shared n =>
    have hp : stripPrefix sharedLead (Tag.field (.shared n)) = some (decimal n.toNat) :=
      stripPrefix_append _ _
    rw [classifyField_shared hp,parseU64_decimal]
    rfl
  | master n =>
    have hp : stripPrefix masterLead (Tag.field (.master n)) = some (decimal n.toNat) :=
      stripPrefix_append _ _
    rw [classifyField_master (stripPrefix_none (hlead n).1) hp,parseU64_decimal]
    rfl
  | propagateFrom n =>
    have hne : Tag.field (.propagateFrom n) ≠ unbindableField := by
      simp [Tag.field,propagateFromLead,unbindableField]
    rw [classifyField_rest (stripPrefix_none (hlead n).2.1) (stripPrefix_none (hlead n).2.2),
      if_neg hne]
    rfl
  | unbindable =>
    have hs : ¬sharedLead <+: Tag.field .unbindable := by
      decide
    have hm : ¬masterLead <+: Tag.field .unbindable := by
      decide
    rw [classifyField_rest (stripPrefix_none hs) (stripPrefix_none hm),Tag.field,if_pos rfl]
    rfl
  | other text =>
    obtain ⟨hs,hm,hu⟩ := h text rfl
    rw [Tag.field,classifyField_rest (stripPrefix_none hs) (stripPrefix_none hm),if_neg hu]
    rfl

/-- Where no kind occurs twice, the order of the tags does not matter. -/
theorem foldl_peers {tags : List Tag} (h : (tags.map Tag.name).Nodup) (peers : Peers) :
    tags.foldl Tag.peers peers =
      ⟨(tags.findSome? Tag.sharedGroup).or peers.shared,
        (tags.findSome? Tag.masterGroup).or peers.master,
        decide (.unbindable ∈ tags) || peers.unbindable⟩ := by
  induction tags generalizing peers with
  | nil => rfl
  | cons t tags ih =>
    obtain ⟨hname,hrest⟩ := List.nodup_cons.mp h
    rw [List.foldl_cons,ih hrest]
    cases t with
    | shared n =>
      have hno : tags.findSome? Tag.sharedGroup = none := by
        rw [List.findSome?_eq_none_iff]
        intro u hu
        cases u with
        | shared k => exact absurd (List.mem_map_of_mem hu) hname
        | _ => rfl
      simp [Tag.peers,hno,List.findSome?_cons,Tag.sharedGroup,Tag.masterGroup]
    | master n =>
      have hno : tags.findSome? Tag.masterGroup = none := by
        rw [List.findSome?_eq_none_iff]
        intro u hu
        cases u with
        | master k => exact absurd (List.mem_map_of_mem hu) hname
        | _ => rfl
      simp [Tag.peers,hno,List.findSome?_cons,Tag.sharedGroup,Tag.masterGroup]
    | propagateFrom n => simp [Tag.peers,List.findSome?_cons,Tag.sharedGroup,Tag.masterGroup]
    | unbindable => simp [Tag.peers,List.findSome?_cons,Tag.sharedGroup,Tag.masterGroup]
    | other text => simp [Tag.peers,List.findSome?_cons,Tag.sharedGroup,Tag.masterGroup]

theorem classifyPropagation_tags {m : Mount} (h : m.Describable) :
    classifyPropagation (m.tags.map Tag.field) = .ok (tagPeers m.tags).propagation := by
  have hfold : ∀ tags : List Tag, (∀ t ∈ tags, t ∈ m.tags) → ∀ peers,
      (tags.map Tag.field).foldlM classifyField peers =
        Except.ok (tags.foldl Tag.peers peers) := by
    intro tags
    induction tags with
    | nil => exact fun _ _ => rfl
    | cons t tags ih =>
      intro hmem peers
      have hfield := classifyField_field (t := t) (fun text ht => by
        subst ht
        exact (h.other text (hmem _ (by simp))).2.2) peers
      rw [List.map_cons,List.foldlM_cons,hfield,List.foldl_cons]
      exact ih (fun u hu => hmem u (by simp [hu])) (t.peers peers)
  rw [classifyPropagation,hfold m.tags (fun _ h => h) noPeers,foldl_peers h.once]
  simp [tagPeers,noPeers,Except.map]

/-! ### Lines -/

theorem Tag.field_word {t : Tag} (h : ∀ text, t = .other text → Word text ∧ text ≠ ['-']) :
    Word t.field ∧ t.field ≠ ['-'] := by
  have happ : ∀ lead : Text, Word lead → lead.head? ≠ some '-' → lead ≠ [] → ∀ n : ℕ,
      Word (lead++decimal n) ∧ lead++decimal n ≠ ['-'] := by
    intro lead hw hhead hne n
    obtain ⟨c,rest,rfl⟩ := List.exists_cons_of_ne_nil hne
    have hd := word_decimal n
    refine ⟨⟨?_,?_⟩,?_⟩
    · rw [List.mem_append]
      exact not_or.mpr ⟨hw.noSpace,hd.noSpace⟩
    · rw [List.mem_append]
      exact not_or.mpr ⟨hw.noNewline,hd.noNewline⟩
    · intro heq
      rw [List.cons_append,List.cons.injEq] at heq
      exact hhead (by rw [List.head?_cons,heq.1])
  cases t with
  | shared n => exact happ sharedLead ⟨by decide,by decide⟩ (by decide) (by decide) n.toNat
  | master n => exact happ masterLead ⟨by decide,by decide⟩ (by decide) (by decide) n.toNat
  | propagateFrom n =>
    exact happ propagateFromLead ⟨by decide,by decide⟩ (by decide) (by decide) n.toNat
  | unbindable => exact ⟨⟨by decide,by decide⟩,by decide⟩
  | other text => exact h text rfl

namespace Mount

theorem word_device (m : Mount) : Word (decimal m.major.toNat++ ':'::decimal m.minor.toNat) := by
  have h₁ := word_decimal m.major.toNat
  have h₂ := word_decimal m.minor.toNat
  exact ⟨by simp [h₁.noSpace,h₂.noSpace],by simp [h₁.noNewline,h₂.noNewline]⟩

theorem Describable.tag {m : Mount} (h : m.Describable) {t : Tag} (ht : t ∈ m.tags) :
    Word t.field ∧ t.field ≠ ['-'] := by
  apply Tag.field_word
  rintro text rfl
  exact ⟨(h.other text ht).1,(h.other text ht).2.1⟩

/-- No field contains what separates fields or lines. -/
theorem Describable.field_mem {m : Mount} (h : m.Describable) {f : List UInt8}
    (hf : f ∈ m.fields) : space ∉ f ∧ newline ∉ f := by
  simp only [fields,head,List.mem_append,List.mem_cons,List.not_mem_nil,or_false,
    List.mem_map] at hf
  rcases hf with ((rfl | rfl | rfl | rfl | rfl | rfl) | ⟨t,ht,rfl⟩) | rfl | rfl | rfl | rfl
  · exact (word_decimal _).field
  · exact (word_decimal _).field
  · exact m.word_device.field
  · exact escape_field _
  · exact escape_field _
  · exact h.mountOptions.1.field
  · exact (h.tag ht).1.field
  · decide
  · exact h.fsType.field
  · exact escape_field _
  · exact h.superOptions.field

/-- The separator is the first field that is a hyphen. -/
theorem Describable.separator {m : Mount} (h : m.Describable) :
    m.fields.findIdx? (· = [hyphen]) = some m.head.length := by
  have hhead : ∀ f ∈ m.head, f ≠ [hyphen] := by
    intro f hf
    simp only [head,List.mem_append,List.mem_cons,List.not_mem_nil,or_false,List.mem_map] at hf
    have hnum : ∀ n : ℕ, pathOf (decimal n) ≠ [hyphen] := by
      intro n
      apply pathOf_ne_hyphen
      intro heq
      exact notMem_decimal (n := n) (c := '-') (by decide) (by simp [heq])
    rcases hf with (rfl | rfl | rfl | rfl | rfl | rfl) | ⟨t,ht,rfl⟩
    · exact hnum _
    · exact hnum _
    · apply pathOf_ne_hyphen
      intro heq
      have hcolon : ':' ∈ ['-'] := by
        rw [← heq]
        simp
      exact absurd hcolon (by decide)
    · exact escape_ne_hyphen h.root
    · exact escape_ne_hyphen h.mountPoint
    · exact pathOf_ne_hyphen h.mountOptions.2
    · exact pathOf_ne_hyphen (h.tag ht).2
  have hnone : m.head.findIdx? (· = [hyphen]) = none := by
    rw [List.findIdx?_eq_none_iff]
    intro f hf
    simpa using hhead f hf
  rw [fields,List.findIdx?_append,hnone]
  simp [List.findIdx?_cons]

theorem Describable.splitOn_render {m : Mount} (h : m.Describable) :
    m.render.splitOn space = m.fields :=
  List.splitOn_intercalate space (fun _ hf => (h.field_mem hf).1) (by simp [fields,head])

/-- A line is read back. -/
theorem Describable.parseLine_render {m : Mount} (h : m.Describable) :
    parseLine m.render = .ok (m.info (tagPeers m.tags).propagation) := by
  have hlen : m.head.length = m.tags.length+6 := by simp [head]
  have htags : ((m.fields.take m.head.length).drop 6).map text = m.tags.map Tag.field := by
    rw [fields,List.take_left' rfl,head]
    simp [Function.comp_def]
  have hafter : ∀ i, m.fields.getD (m.head.length+i) [] =
      [[hyphen],pathOf m.fsType,escape m.source,pathOf m.superOptions].getD i [] := by
    intro i
    rw [fields,List.getD_eq_getElem?_getD,List.getElem?_append_right (by omega),
      Nat.add_sub_cancel_left,List.getD_eq_getElem?_getD]
  have hfields : m.fields.length = m.head.length+4 := by simp [fields]
  unfold parseLine
  simp only [h.splitOn_render,h.separator]
  rw [if_neg (by omega),if_neg (by omega)]
  simp only [htags,hafter,classifyPropagation_tags h]
  simp [fields,head,splitOnce_decimal,bind,Except.bind,pure,Except.pure,info]

end Mount

/-! ### The whole file -/

theorem Mount.render_ne_nil (m : Mount) : m.render ≠ [] := by
  obtain ⟨c,rest,hc⟩ := List.exists_cons_of_ne_nil (decimal_ne_nil m.mountId.toNat)
  have hbytes := String.utf8EncodeChar_ne_nil (c := c)
  simp [Mount.render,Mount.fields,Mount.head,pathOf,hc,hbytes]

/-- What is rendered is read back, with byte-exact paths and in order. -/
theorem parse_render {mounts : List Mount} (h : ∀ m ∈ mounts, m.Describable) :
    ∃ infos, parse (render mounts) = .ok infos ∧ List.Forall₂ Mount.Reads mounts infos := by
  have hlines : (render mounts).splitOn newline = mounts.map Mount.render++[[]] := by
    have hterm : (mounts.map Mount.render).flatMap (fun l => l++[newline]) = render mounts := by
      rw [render,List.flatMap_map]
    rw [← hterm]
    apply Lists.splitOn_terminated
    intro line hl hmem
    obtain ⟨m,hm,rfl⟩ := List.mem_map.mp hl
    rcases Lists.mem_intercalate hmem with heq | ⟨f,hf,hmem⟩
    · exact absurd heq (by decide)
    · exact ((h m hm).field_mem hf).2 hmem
  rw [parse,hlines]
  clear hlines
  generalize 0 = index
  induction mounts generalizing index with
  | nil => exact ⟨[],rfl,.nil⟩
  | cons m mounts ih =>
    obtain ⟨infos,hrest,hreads⟩ := ih (fun k hk => h k (by simp [hk])) (index+1)
    have hm := (h m (by simp)).parseLine_render
    rw [List.map_cons,List.cons_append,parseLines,if_neg m.render_ne_nil,hm]
    simp only
    rw [hrest]
    exact ⟨_,rfl,.cons ⟨_,tagClass_peers m.tags,rfl⟩ hreads⟩

/-! ### A mount whose paths need every escape -/

/-- `/a b`, then a tab, a line break, a backslash with digits after it and a byte of no UTF-8. -/
def sample : Mount where
  mountId := 40
  parentId := 22
  major := 259
  minor := 2
  root := [47,97,32,98]
  mountPoint := [47,9,10,92,48,52,48,233]
  mountOptions := ['r','o']
  tags := [.master 3,.other ['n','e','w'],.shared 5]
  fsType := ['-']
  source := [92,92]
  superOptions := []

theorem sample_describable : sample.Describable where
  root := by decide
  mountPoint := by decide
  mountOptions := ⟨⟨by decide,by decide⟩,by decide⟩
  fsType := ⟨by decide,by decide⟩
  superOptions := ⟨by decide,by decide⟩
  other := by
    intro text h
    have htext : text = ['n','e','w'] := by simpa [sample] using h
    subst htext
    exact ⟨⟨by decide,by decide⟩,by decide,by decide,by decide,by decide⟩
  once := by decide

/-- The same mount, which no peer group knows. -/
def unshared : Mount := {sample with tags := [.propagateFrom 5]}

theorem unshared_describable : unshared.Describable where
  root := by decide
  mountPoint := by decide
  mountOptions := ⟨⟨by decide,by decide⟩,by decide⟩
  fsType := ⟨by decide,by decide⟩
  superOptions := ⟨by decide,by decide⟩
  other := by simp [unshared]
  once := by decide

theorem sample_class {p : Propagation} (h : TagClass sample.tags p) : p = .sharedAndSlave 5 3 := by
  cases h <;> simp_all [sample]

theorem unshared_class {p : Propagation} (h : TagClass unshared.tags p) : p = .private_ := by
  cases h <;> simp_all [unshared]

theorem parse_render_run : parse (render [sample,unshared]) =
    .ok [sample.info (.sharedAndSlave 5 3),unshared.info .private_] := by
  have hd : ∀ m ∈ [sample,unshared], m.Describable := by
    simp only [List.mem_cons,List.not_mem_nil,or_false,forall_eq_or_imp,forall_eq]
    exact ⟨sample_describable,unshared_describable⟩
  obtain ⟨infos,hparse,hreads⟩ := parse_render hd
  cases hreads with
  | cons h₁ hrest =>
    cases hrest with
    | cons h₂ hnil =>
      cases hnil
      obtain ⟨p₁,hp₁,rfl⟩ := h₁
      obtain ⟨p₂,hp₂,rfl⟩ := h₂
      rw [hparse,sample_class hp₁,unshared_class hp₂]

end Byssus.Mountinfo
