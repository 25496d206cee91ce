import Byssus.Library.KeyOrder
import Mathlib.Data.List.DropRight
import Mathlib.Tactic.DeriveFintype

/-! Validated member and group names, and the identifiers of groups.
A name is carried together with the proof that it passed the allowlist, so no
later definition can meet an unchecked one. -/
namespace Byssus

/-- A Rust `str`: its Unicode scalar values in order. -/
abbrev Text := List Char

instance : LawfulBEq Text := inferInstance

/-- `str::len`, the length of the UTF-8 encoding. -/
def byteLen (s : Text) : ℕ := (s.map Char.utf8Size).sum

@[simp] theorem byteLen_nil : byteLen [] = 0 := rfl
@[simp] theorem byteLen_cons (c : Char) (s : Text) : byteLen (c::s) = c.utf8Size+byteLen s := by
  simp [byteLen]
@[simp] theorem byteLen_append (s t : Text) : byteLen (s++t) = byteLen s+byteLen t := by
  simp [byteLen]

/-- `MAX_NAME_LEN`, the Linux `NAME_MAX`. -/
def maxNameLen : ℕ := 255

/-- `char::from` on a byte. -/
def charFrom (b : UInt8) : Char := Char.ofNat b.toNat

def isAllowedChar (c : Char) : Bool :=
  c.isAlphanum || c = '.' || c = '_' || c = '-'

def isAllowedByte (b : UInt8) : Bool := isAllowedChar (charFrom b)

/-- What a text must satisfy to be a name. -/
def ValidName (s : Text) : Prop :=
  s ≠ [] ∧ s.length ≤ maxNameLen ∧ s.head? ≠ some '.' ∧ ∀ c ∈ s, isAllowedChar c = true

instance (s : Text) : Decidable (ValidName s) :=
  decidable_of_iff (s ≠ [] ∧ s.length ≤ maxNameLen ∧ s.head? ≠ some '.' ∧
    s.all isAllowedChar = true) (by simp [ValidName])

structure Name where
  text : Text
  valid : ValidName text
  deriving DecidableEq

inductive NameError
  | empty
  | tooLong (len : ℕ)
  | leadingDot
  | invalidByte (byte : UInt8) (offset : ℕ)
  deriving DecidableEq

namespace Name

theorem text_injective : Function.Injective Name.text := by
  rintro ⟨a,ha⟩ ⟨b,hb⟩ h
  simpa using h

theorem text_ne_nil (n : Name) : n.text ≠ [] := n.valid.1

theorem head_ne_dot (n : Name) : n.text.head? ≠ some '.' := n.valid.2.2.1

theorem allowed (n : Name) {c : Char} (hc : c ∈ n.text) : isAllowedChar c = true :=
  n.valid.2.2.2 c hc

theorem length_pos (n : Name) : 0 < n.text.length := List.length_pos_of_ne_nil n.text_ne_nil

/-- Allowed characters are ASCII. -/
theorem toNat_le_of_allowed {c : Char} (hc : isAllowedChar c = true) : c.toNat ≤ 127 := by
  have hv : c.val ≤ 127 := by
    unfold isAllowedChar Char.isAlphanum at hc
    delta Char.isAlpha Char.isUpper Char.isLower at hc
    simp only [Char.isDigit,Bool.or_eq_true,Bool.and_eq_true,decide_eq_true_eq] at hc
    rcases hc with ((((⟨-,h⟩ | ⟨-,h⟩) | ⟨-,h⟩) | rfl) | rfl) | rfl
    · exact UInt32.le_trans h (by decide)
    · exact UInt32.le_trans h (by decide)
    · exact UInt32.le_trans h (by decide)
    all_goals decide
  simpa [UInt32.le_iff_toNat_le] using hv

/-- So a name has as many bytes as characters. -/
theorem utf8Size_of_allowed {c : Char} (hc : isAllowedChar c = true) : c.utf8Size = 1 := by
  have hn := toNat_le_of_allowed hc
  simp [Char.utf8Size,UInt32.le_iff_toNat_le]
  omega

/-- The encoding of an allowed character is one byte, from which it is read back. -/
theorem charFrom_encode {c : Char} (hc : isAllowedChar c = true) :
    (String.utf8EncodeChar c).map charFrom = [c] := by
  have hn := toNat_le_of_allowed hc
  have henc : String.utf8EncodeChar c = [UInt8.ofNat c.toNat] := if_pos hn
  have hsmall : c.toNat%256 = c.toNat := Nat.mod_eq_of_lt (by omega)
  simp [henc,charFrom,UInt8.toNat_ofNat',hsmall]

theorem byteLen_of_allowed {s : Text} (hs : ∀ c ∈ s, isAllowedChar c = true) :
    byteLen s = s.length := by
  induction s with
  | nil => rfl
  | cons c s ih =>
    have hc := utf8Size_of_allowed (hs c (by simp))
    have ht := ih (fun a ha => hs a (by simp [ha]))
    simp only [byteLen_cons,hc,ht,List.length_cons]
    omega

@[simp] theorem byteLen_text (n : Name) : byteLen n.text = n.text.length :=
  byteLen_of_allowed fun _ hc => n.allowed hc

theorem slash_notMem (n : Name) : '/' ∉ n.text := by
  intro h
  have ha := n.allowed h
  revert ha
  decide

/-- `Name::from_bytes`: the checks in source order. -/
def fromBytes (bytes : List UInt8) : Except NameError Name :=
  if h0 : bytes = [] then .error .empty
  else if hl : bytes.length > maxNameLen then .error (.tooLong bytes.length)
  else if hd : (bytes.map charFrom).head? = some '.' then .error .leadingDot
  else match ho : bytes.findIdx? (fun b => !isAllowedByte b) with
    | some offset => .error (.invalidByte (bytes.getD offset 0) offset)
    | none => .ok ⟨bytes.map charFrom,by simpa using h0,by simpa using hl,hd,by
        simpa [isAllowedByte] using ho⟩

/-- `Name::new`. -/
def new (s : Text) : Except NameError Name := fromBytes (s.flatMap String.utf8EncodeChar)

theorem fromBytes_text {bytes : List UInt8} {n : Name} (h : fromBytes bytes = .ok n) :
    n.text = bytes.map charFrom := by
  unfold fromBytes at h
  split_ifs at h
  split at h
  · cases h
  · cases h; rfl

/-- Exactly the byte strings whose characters form a valid name are accepted. -/
theorem fromBytes_ok_iff (bytes : List UInt8) :
    (∃ n, fromBytes bytes = .ok n) ↔ ValidName (bytes.map charFrom) := by
  constructor
  · rintro ⟨n,hn⟩
    rw [← fromBytes_text hn]
    exact n.valid
  · rintro ⟨h0,hl,hd,ha⟩
    refine ⟨⟨bytes.map charFrom,h0,hl,hd,ha⟩,?_⟩
    have hb : bytes ≠ [] := by simpa using h0
    have hn : bytes.findIdx? (fun b => !isAllowedByte b) = none := by
      simpa [isAllowedByte] using ha
    unfold fromBytes
    rw [dif_neg hb,dif_neg (by simpa using hl),dif_neg hd]
    split
    · rename_i offset ho
      rw [hn] at ho
      cases ho
    · rfl

/-- A name is read back from its text. -/
@[simp] theorem new_text (n : Name) : new n.text = .ok n := by
  have hmap : (n.text.flatMap String.utf8EncodeChar).map charFrom = n.text := by
    have hchars : ∀ s : Text, (∀ c ∈ s, isAllowedChar c = true) →
        (s.flatMap String.utf8EncodeChar).map charFrom = s := by
      intro s hs
      induction s with
      | nil => rfl
      | cons c s ih =>
        rw [List.flatMap_cons,List.map_append,charFrom_encode (hs c (by simp)),
          ih fun a ha => hs a (by simp [ha])]
        rfl
    exact hchars n.text fun c hc => n.allowed hc
  obtain ⟨m,hm⟩ := (fromBytes_ok_iff (n.text.flatMap String.utf8EncodeChar)).mpr
    (by rw [hmap]; exact n.valid)
  have htext : m.text = n.text := (fromBytes_text hm).trans hmap
  exact hm.trans (congrArg Except.ok (text_injective htext))

instance : Ord Name := ⟨compareOn Name.text⟩
instance : Std.TransOrd Name := inferInstanceAs (Std.TransCmp (compareOn Name.text))
instance : Std.LawfulEqOrd Name := KeyOrder.lawfulEq_compareOn text_injective

end Name

/-- A statically configured group, or a group of a set named by its directory levels. -/
structure GroupId where
  set : Option Name
  path : List Name
  deriving DecidableEq

/-- `MAX_SET_DEPTH`. -/
def maxSetDepth : ℕ := 2

namespace GroupId

def statically (group : Name) : GroupId := ⟨none,[group]⟩

/-- `GroupId::in_set`.  The source asserts `1 ≤ path.len() ≤ MAX_SET_DEPTH`; every caller
passes at most the depth of an accepted set (`depth_le_maxSetDepth`). -/
def inSet (set : Name) (path : List Name) : GroupId := ⟨some set,path⟩

/-- Same set, and `pre`'s path is a leading part of this path. -/
def startsWith (g pre : GroupId) : Bool := g.set == pre.set && pre.path.isPrefixOf g.path

theorem startsWith_iff (g pre : GroupId) :
    g.startsWith pre = true ↔ g.set = pre.set ∧ pre.path <+: g.path := by
  simp [startsWith]

@[simp] theorem startsWith_self (g : GroupId) : g.startsWith g = true := by
  simp [startsWith_iff]

@[simp] theorem inSet_startsWith (s : Name) (p q : List Name) :
    (inSet s p).startsWith (inSet s q) = true ↔ q <+: p := by
  simp [startsWith_iff,inSet]

@[simp] theorem inSet_set (s : Name) (p : List Name) : (inSet s p).set = some s := rfl
@[simp] theorem inSet_path (s : Name) (p : List Name) : (inSet s p).path = p := rfl

@[simp] theorem inSet_inj {s s' : Name} {p p' : List Name} :
    inSet s p = inSet s' p' ↔ s = s' ∧ p = p' := by
  simp [inSet]

/-- `Display`: `set/level/level`, or the static group's name. -/
def display (g : GroupId) : Text :=
  (match g.set with | some s => s.text ++ ['/'] | none => []) ++
    List.intercalate ['/'] (g.path.map Name.text)

/-- `GroupId::parse`: `group`, `set/group` or `set/group/subgroup`; the last slash of a text
with more parts is reported. -/
def parse (s : Text) : Except NameError GroupId :=
  match s.splitOn '/' with
  | [] => .error .empty -- never: `split` has a first part
  | first::rest =>
    match Name.new first with
    | .error e => .error e
    | .ok first =>
      match rest.mapM Name.new with
      | .error e => .error e
      | .ok [] => .ok (statically first)
      | .ok levels =>
        if levels.length ≤ maxSetDepth then .ok (inSet first levels)
        else .error (.invalidByte 47 (byteLen (List.intercalate ['/'] (s.splitOn '/').dropLast)))

/-- The identifiers that exist: of a static group, or of a directory of a set. -/
def Valid (g : GroupId) : Prop :=
  match g.set with
  | none => g.path.length = 1
  | some _ => 0 < g.path.length ∧ g.path.length ≤ maxSetDepth

theorem mapM_new_text (ns : List Name) : (ns.map Name.text).mapM Name.new = .ok ns := by
  induction ns with
  | nil => rfl
  | cons n ns ih =>
    rw [List.map_cons,List.mapM_cons,Name.new_text,ih]
    rfl

/-- The parts of a displayed identifier are its names. -/
theorem splitOn_intercalate_names {ns : List Name} (hne : ns ≠ []) :
    (List.intercalate ['/'] (ns.map Name.text)).splitOn '/' = ns.map Name.text := by
  apply List.splitOn_intercalate '/' _ (by simpa using hne)
  intro t ht
  obtain ⟨n,-,rfl⟩ := List.mem_map.mp ht
  exact n.slash_notMem

/-- An identifier is read back from its display. -/
theorem parse_display {g : GroupId} (h : g.Valid) : parse g.display = .ok g := by
  obtain ⟨set,path⟩ := g
  cases set with
  | none =>
    obtain ⟨n,rfl⟩ := List.length_eq_one_iff.mp h
    have hdisplay : display ⟨none,[n]⟩ = List.intercalate ['/'] ([n].map Name.text) := rfl
    unfold parse
    rw [hdisplay,splitOn_intercalate_names (List.cons_ne_nil n []),List.map_cons]
    simp only [Name.new_text]
    rfl
  | some s =>
    obtain ⟨n,ns,rfl⟩ := List.exists_cons_of_length_pos h.1
    have hdisplay : display ⟨some s,n::ns⟩ = List.intercalate ['/'] ((s::n::ns).map Name.text) := by
      simp [display,List.intercalate_cons_cons]
    unfold parse
    rw [hdisplay,splitOn_intercalate_names (List.cons_ne_nil s (n::ns)),List.map_cons]
    simp only [Name.new_text,mapM_new_text]
    rw [if_pos h.2]
    rfl

/-- Displays tell existing groups apart. -/
theorem display_inj {g g' : GroupId} (hg : g.Valid) (hg' : g'.Valid)
    (h : g.display = g'.display) : g = g' := by
  have hp := parse_display hg
  rw [h,parse_display hg'] at hp
  exact (Except.ok.inj hp).symm

theorem parse_valid {s : Text} {g : GroupId} (h : parse s = .ok g) : g.Valid := by
  unfold parse at h
  split at h
  · cases h
  · rename_i first rest _
    cases hf : Name.new first with
    | error e => simp [hf] at h
    | ok n =>
      simp only [hf] at h
      cases hr : rest.mapM Name.new with
      | error e => simp [hr] at h
      | ok levels =>
        simp only [hr] at h
        cases levels with
        | nil =>
          cases h
          exact rfl
        | cons l ls =>
          simp only at h
          split_ifs at h with hle
          cases h
          exact ⟨by simp,hle⟩

instance : Ord GroupId := ⟨compareLex (compareOn GroupId.set) (compareOn GroupId.path)⟩
instance : Std.TransOrd GroupId :=
  inferInstanceAs (Std.TransCmp (compareLex (compareOn GroupId.set) (compareOn GroupId.path)))
instance : Std.LawfulEqOrd GroupId := KeyOrder.lawfulEq_compareLex fun a b h₁ h₂ => by
  cases a; cases b; simp_all

end GroupId
end Byssus
