import Mathlib.Algebra.GroupWithZero.Nat
import Mathlib.Data.List.Sort

/-! JSON values, and the readers that a derived deserializer is made of.
A struct is read from an object whose entries are all known fields, or from an array of the
fields in their order; the rules say what a reader returns on what a writer made. -/
namespace Json

/-- A number: one that fits the unsigned integers, or any other, as it is written. -/
inductive Number
  | unsigned (n : ℕ)
  | other (text : String)
  deriving DecidableEq

inductive Value
  | null
  | bool (b : Bool)
  | number (n : Number)
  | string (s : List Char)
  | array (values : List Value)
  | object (entries : List (String × Value))

/-- Why a value does not have the shape that is read. -/
inductive ShapeError
  | invalidType
  | invalidValue (n : ℕ)
  | invalidLength (len : ℕ)
  | unknownField (name : String)
  | missingField (name : String)
  | custom (message : String)
  deriving DecidableEq

abbrev Reader (α : Type) := Value → Except ShapeError α

/-- The entries of an object are kept in the order of their keys. -/
def objectOf (entries : List (String × Value)) : Value :=
  .object (entries.insertionSort fun a b => a.1 ≤ b.1)

def Value.get (value : Value) (key : String) : Option Value :=
  match value with
  | .object entries => entries.lookup key
  | _ => none

def Value.asUnsigned : Value → Option ℕ
  | .number (.unsigned n) => some n
  | _ => none

namespace Reader

def string : Reader (List Char)
  | .string s => .ok s
  | _ => .error .invalidType

def bool : Reader Bool
  | .bool b => .ok b
  | _ => .error .invalidType

/-- An unsigned integer of so many bits. -/
def unsigned (bits : ℕ) : Reader ℕ
  | .number (.unsigned n) => if n < 2^bits then .ok n else .error (.invalidValue n)
  | _ => .error .invalidType

def optional {α : Type} (read : Reader α) : Reader (Option α)
  | .null => .ok none
  | value => (read value).map some

def list {α : Type} (read : Reader α) : Reader (List α)
  | .array values => values.mapM read
  | _ => .error .invalidType

/-- A text that is parsed further, with the parser's message where that fails. -/
def parsed {α ε : Type} (parse : List Char → Except ε α) (message : ε → String) : Reader α :=
  fun value => match string value with
    | .error e => .error e
    | .ok s => (parse s).mapError (.custom ∘ message)

/-- What a reader accepts. -/
def check {α : Type} (read : Reader α) : Reader Unit := fun value => (read value).map fun _ => ()

variable {α ε : Type}

theorem check_ok {read : Reader α} {value : Value} {a : α} (h : read value = .ok a) :
    check read value = .ok () := by
  simp [check,h,Except.map]

theorem unsigned_ok {bits n : ℕ} (h : n < 2^bits) :
    unsigned bits (.number (.unsigned n)) = .ok n := if_pos h

theorem unsigned_lt {bits n : ℕ} {value : Value} (h : unsigned bits value = .ok n) : n < 2^bits := by
  unfold unsigned at h
  split at h
  · split_ifs at h with hlt
    cases h
    exact hlt
  · cases h

theorem parsed_ok {parse : List Char → Except ε α} {message : ε → String} {s : List Char} {a : α}
    (h : parse s = .ok a) : parsed parse message (.string s) = .ok a := by
  simp [parsed,string,h,Except.mapError]

theorem parsed_inv {parse : List Char → Except ε α} {message : ε → String} {value : Value} {a : α}
    (h : parsed parse message value = .ok a) : ∃ s, parse s = .ok a := by
  unfold parsed at h
  cases hs : string value with
  | error e => simp [hs] at h
  | ok s =>
    simp only [hs] at h
    cases hp : parse s with
    | error e => simp [hp,Except.mapError] at h
    | ok b =>
      simp only [hp,Except.mapError,Except.ok.injEq] at h
      exact ⟨s,by rw [hp,h]⟩

theorem optional_ok {read : Reader α} {value : Value} {a : α} (hn : value ≠ .null)
    (h : read value = .ok a) : optional read value = .ok (some a) := by
  cases value with
  | null => exact absurd rfl hn
  | _ => simp [optional,h,Except.map]

theorem optional_inv {read : Reader α} {value : Value} {a : α}
    (h : optional read value = .ok (some a)) : read value = .ok a := by
  cases value with
  | null => cases h
  | _ =>
    simp only [optional] at h
    cases hr : read _ with
    | error e => simp [hr,Except.map] at h
    | ok b => simpa [hr,Except.map] using h

theorem mapM_map_ok {β : Type} {read : Reader α} {write : β → Value} {value : β → α} {l : List β}
    (h : ∀ b ∈ l, read (write b) = .ok (value b)) : (l.map write).mapM read = .ok (l.map value) := by
  induction l with
  | nil => rfl
  | cons b l ih =>
    rw [List.map_cons,List.mapM_cons,h b (by simp),ih fun c hc => h c (by simp [hc])]
    rfl

theorem mapM_inv {read : Reader α} {values : List Value} {l : List α} (h : values.mapM read = .ok l) :
    ∀ a ∈ l, ∃ value, read value = .ok a := by
  induction values generalizing l with
  | nil =>
    cases h
    simp
  | cons value values ih =>
    rw [List.mapM_cons] at h
    cases hv : read value with
    | error e =>
      rw [hv] at h
      cases h
    | ok a =>
      cases hr : values.mapM read with
      | error e =>
        rw [hv,hr] at h
        cases h
      | ok as =>
        rw [hv,hr] at h
        cases h
        intro b hb
        rcases List.mem_cons.mp hb with rfl | hb
        · exact ⟨value,hv⟩
        · exact ih hr b hb

end Reader

/-! ### Structs -/

/-- The loop over the entries: each is a known field with a value that its reader accepts. -/
def checkEntries (fields : List (String × Reader Unit)) :
    List (String × Value) → Except ShapeError Unit
  | [] => .ok ()
  | (key,value)::entries =>
    match fields.lookup key with
    | none => .error (.unknownField key)
    | some check =>
      match check value with
      | .error e => .error e
      | .ok () => checkEntries fields entries

/-- A field that must be there. -/
def required {α : Type} (missing : String → ShapeError) (entries : List (String × Value))
    (key : String) (read : Reader α) : Except ShapeError α :=
  match entries.lookup key with
  | none => .error (missing key)
  | some value => read value

/-- A field with a default. -/
def defaulted {α : Type} (default : α) (entries : List (String × Value)) (key : String)
    (read : Reader α) : Except ShapeError α :=
  match entries.lookup key with
  | none => .ok default
  | some value => read value

/-- A derived reader that denies unknown fields: from an object, or from an array of the fields
in their order. -/
def visitStruct {α : Type} (fields : List (String × Reader Unit))
    (build : (String → ShapeError) → List (String × Value) → Except ShapeError α) : Reader α
  | .object entries =>
    match checkEntries fields entries with
    | .error e => .error e
    | .ok () => build .missingField entries
  | .array values =>
    let entries := (fields.map Prod.fst).zip values
    match checkEntries fields entries with
    | .error e => .error e
    | .ok () =>
      match build (fun key => .invalidLength ((fields.map Prod.fst).idxOf key)) entries with
      | .error e => .error e
      | .ok a =>
        if values.length > fields.length then .error (.invalidLength values.length) else .ok a
  | _ => .error .invalidType

theorem lookup_of_mem {entries : List (String × Value)} (hn : (entries.map Prod.fst).Nodup)
    {key : String} {value : Value} (h : (key,value) ∈ entries) : entries.lookup key = some value := by
  induction entries with
  | nil => cases h
  | cons entry entries ih =>
    rw [List.map_cons,List.nodup_cons] at hn
    rcases List.mem_cons.mp h with rfl | h
    · simp
    · have hne : key ≠ entry.1 := by
        rintro rfl
        exact hn.1 (List.mem_map.mpr ⟨_,h,rfl⟩)
      rw [List.lookup_cons,beq_eq_false_iff_ne.mpr hne]
      exact ih hn.2 h

/-- What a writer made of a struct, in any order and with no field twice. -/
structure Written (entries written : List (String × Value)) : Prop where
  nodup : (entries.map Prod.fst).Nodup
  mem : ∀ e, e ∈ entries ↔ e ∈ written

namespace Written

variable {α : Type} {entries written : List (String × Value)}

theorem objectOf (hn : (written.map Prod.fst).Nodup) :
    Written (written.insertionSort fun a b => a.1 ≤ b.1) written where
  nodup := ((List.perm_insertionSort _ written).map Prod.fst).nodup_iff.mpr hn
  mem _ := (List.perm_insertionSort _ written).mem_iff

theorem required (h : Written entries written) {missing : String → ShapeError} {key : String}
    {value : Value} {read : Reader α} {a : α} (hm : (key,value) ∈ written)
    (hr : read value = .ok a) : Json.required missing entries key read = .ok a := by
  simp [Json.required,lookup_of_mem h.nodup ((h.mem _).mpr hm),hr]

theorem present (h : Written entries written) {default : α} {key : String} {value : Value}
    {read : Reader α} {a : α} (hm : (key,value) ∈ written) (hr : read value = .ok a) :
    defaulted default entries key read = .ok a := by
  simp [defaulted,lookup_of_mem h.nodup ((h.mem _).mpr hm),hr]

theorem absent (h : Written entries written) {default : α} {key : String} {read : Reader α}
    (hm : key ∉ written.map Prod.fst) : defaulted default entries key read = .ok default := by
  have hl : entries.lookup key = none := by
    rw [List.lookup_eq_none_iff]
    intro e he
    rw [bne_iff_ne]
    rintro rfl
    exact hm (List.mem_map_of_mem ((h.mem e).mp he))
  simp [defaulted,hl]

theorem checked (h : Written entries written) {fields : List (String × Reader Unit)}
    (hc : ∀ e ∈ written, ∃ check, fields.lookup e.1 = some check ∧ check e.2 = .ok ()) :
    checkEntries fields entries = .ok () := by
  have hall : ∀ es : List (String × Value), (∀ e ∈ es, e ∈ written) →
      checkEntries fields es = .ok () := by
    intro es hes
    induction es with
    | nil => rfl
    | cons e es ih =>
      obtain ⟨check,hl,hok⟩ := hc e (hes e (by simp))
      simp only [checkEntries,hl,hok]
      exact ih fun e he => hes e (by simp [he])
  exact hall entries fun e he => (h.mem e).mp he

end Written

variable {α : Type}

theorem required_inv {missing : String → ShapeError} {entries : List (String × Value)}
    {key : String} {read : Reader α} {a : α} (h : required missing entries key read = .ok a) :
    ∃ value, read value = .ok a := by
  unfold required at h
  split at h
  · cases h
  · exact ⟨_,h⟩

theorem defaulted_inv {default : α} {entries : List (String × Value)} {key : String}
    {read : Reader α} {a : α} (h : defaulted default entries key read = .ok a) :
    a = default ∨ ∃ value, read value = .ok a := by
  unfold defaulted at h
  split at h
  · cases h
    exact .inl rfl
  · exact .inr ⟨_,h⟩

theorem visitStruct_inv {fields : List (String × Reader Unit)}
    {build : (String → ShapeError) → List (String × Value) → Except ShapeError α} {value : Value}
    {a : α} (h : visitStruct fields build value = .ok a) :
    ∃ missing entries, build missing entries = .ok a := by
  unfold visitStruct at h
  split at h
  · split at h
    · cases h
    · exact ⟨_,_,h⟩
  · dsimp only at h
    split at h
    · cases h
    · split at h
      · cases h
      · rename_i hb
        split at h
        · cases h
        · cases h
          exact ⟨_,_,hb⟩
  · cases h

theorem bind_ok_iff {ε α β : Type} {x : Except ε α} {f : α → Except ε β} {b : β} :
    (x >>= f) = .ok b ↔ ∃ a, x = .ok a ∧ f a = .ok b := by
  cases x with
  | error e => simp [bind,Except.bind]
  | ok a => simp [bind,Except.bind]

end Json
