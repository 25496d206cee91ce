import Byssus.Name

/-! Structured `key=value` log lines.
A value is quoted where it could be taken for something else, and a decoder reads every
value back from the line, whatever it contains. -/
namespace Byssus.Logging

/-- `char::is_control`: the Unicode category Cc. -/
def isControl (c : Char) : Bool := c.toNat < 0x20 || (0x7f ≤ c.toNat && c.toNat ≤ 0x9f)

def quoteMark : Char := '\x22'
def backslash : Char := '\x5c'

/-- A character that a value can only have between quotes. -/
def isSpecial (c : Char) : Bool :=
  c = ' ' || c = '=' || c = quoteMark || c = backslash || isControl c

/-- One iteration of the loop of `quote`. -/
def escapeChar (c : Char) : Text :=
  if c = quoteMark then [backslash,quoteMark]
  else if c = backslash then [backslash,backslash]
  else if c = '\n' then [backslash,'n']
  else if c = '\r' then [backslash,'r']
  else if c = '\t' then [backslash,'t']
  else if isControl c = true then [backslash,'u','\x7b']++Nat.toDigits 16 c.toNat++['\x7d']
  else [c]

/-- `quote`. -/
def quote (value : Text) : Text :=
  if value = [] ∨ value.any isSpecial = true then
    quoteMark::(value.flatMap escapeChar++[quoteMark])
  else value

inductive Level
  | error
  | warn
  | info
  | debug
  | trace
  deriving DecidableEq

def Level.text : Level → Text
  | .error => ['e','r','r','o','r']
  | .warn => ['w','a','r','n']
  | .info => ['i','n','f','o']
  | .debug => ['d','e','b','u','g']
  | .trace => ['t','r','a','c','e']

def messageKey : Text := ['m','e','s','s','a','g','e']
def msgKey : Text := ['m','s','g']

/-- An event: its fields with their values as texts, in the order they are recorded. -/
structure Event where
  level : Level
  fields : List (Text × Text)
  deriving DecidableEq

/-- `FieldVisitor`. -/
structure FieldVisitor where
  message : Option Text
  fields : List (Text × Text)
  deriving DecidableEq

/-- `FieldVisitor::push`. -/
def FieldVisitor.push (visitor : FieldVisitor) (field : Text × Text) : FieldVisitor :=
  if field.1 = messageKey ∨ field.1 = msgKey then { visitor with message := some field.2 }
  else { visitor with fields := visitor.fields++[field] }

/-- `event.record`. -/
def Event.record (event : Event) : FieldVisitor := event.fields.foldl .push ⟨none,[]⟩

/-- ` key=value`. -/
def formatField (field : Text × Text) : Text := ' '::(field.1++ '='::quote field.2)

/-- `format_event`; `now` is the time as it is written with timestamps. -/
def formatEvent (timestamps : Bool) (now : Text) (event : Event) : Text :=
  let visitor := event.record
  (if timestamps then ['t','s','=']++now++[' '] else [])++
    (['l','e','v','e','l','=']++event.level.text)++
    (visitor.message.map fun m => (msgKey,m)).toList.flatMap formatField++
    visitor.fields.flatMap formatField++['\n']

/-! ### The decoder -/

/-- Where the decoder stands in a quoted value: outside an escape, after the backslash,
after the `u`, or in the digits. -/
inductive Mode
  | plain
  | escape
  | brace
  | hex (n : ℕ)

def unescapeChar (c : Char) : Char :=
  if c = 'n' then '\n' else if c = 'r' then '\r' else if c = 't' then '\t' else c

def hexValue (c : Char) : ℕ := if c.isDigit then c.toNat-48 else c.toNat-87

/-- Puts a character before what is read. -/
def consRead (c : Char) (r : Option (Text × Text)) : Option (Text × Text) :=
  r.map fun p => (c::p.1,p.2)

/-- A quoted value without its opening quote, and what follows the closing one. -/
def readQuoted : Mode → Text → Option (Text × Text)
  | _, [] => none
  | .plain, c::rest =>
    if c = quoteMark then some ([],rest)
    else if c = backslash then readQuoted .escape rest
    else consRead c (readQuoted .plain rest)
  | .escape, c::rest =>
    if c = 'u' then readQuoted .brace rest
    else consRead (unescapeChar c) (readQuoted .plain rest)
  | .brace, _::rest => readQuoted (.hex 0) rest
  | .hex n, c::rest =>
    if c = '\x7d' then consRead (Char.ofNat n) (readQuoted .plain rest)
    else readQuoted (.hex (n*16+hexValue c)) rest

/-- A value and what follows it. -/
def readValue (s : Text) : Option (Text × Text) :=
  if s.head? = some quoteMark then readQuoted .plain s.tail
  else some (s.takeWhile (· ≠ ' '),s.dropWhile (· ≠ ' '))

/-- The fields of a line, of which there are at most as many as `fuel`. -/
def readFields : ℕ → Text → Option (List (Text × Text))
  | _, [] => some []
  | 0, _::_ => none
  | fuel+1, c::rest =>
    if c = ' ' then
      (readValue (rest.dropWhile (· ≠ '=')).tail).bind fun p =>
        (readFields fuel p.2).map fun fields => (rest.takeWhile (· ≠ '='),p.1)::fields
    else none

def readLevel (s : Text) : Option Level :=
  [Level.error,.warn,.info,.debug,.trace].find? fun l => l.text = s

/-- The level, the message and the other fields of a line. -/
def decodeLine (timestamps : Bool) (line : Text) :
    Option (Level × Option Text × List (Text × Text)) :=
  let rest := if timestamps then (line.dropWhile (· ≠ ' ')).tail else line
  let event := rest.dropLast.drop 6
  (readLevel (event.takeWhile (· ≠ ' '))).bind fun level =>
    (readFields line.length (event.dropWhile (· ≠ ' '))).map fun
      | [] => (level,none,[])
      | field::fields =>
        if field.1 = msgKey then (level,some field.2,fields) else (level,none,field::fields)

/-! ### Values -/

/-- The digits of a control character are read back, and are no closing brace. -/
theorem digits_control {c : Char} (hc : isControl c = true) :
    (Nat.toDigits 16 c.toNat).foldl (fun n d => n*16+hexValue d) 0 = c.toNat ∧
      ∀ d ∈ Nat.toDigits 16 c.toNat, d ≠ '\x7d' ∧ isControl d = false := by
  have hall : ∀ i : Fin 160,
      (Nat.toDigits 16 i.val).foldl (fun n d => n*16+hexValue d) 0 = i.val ∧
      ∀ d ∈ Nat.toDigits 16 i.val, d ≠ '\x7d' ∧ isControl d = false := by
    decide +kernel
  have hlt : c.toNat < 160 := by
    simp only [isControl,Bool.or_eq_true,Bool.and_eq_true,decide_eq_true_eq] at hc
    omega
  exact hall ⟨c.toNat,hlt⟩

theorem readQuoted_hex {digits : Text} (hd : ∀ d ∈ digits, d ≠ '\x7d') (n : ℕ) (rest : Text) :
    readQuoted (.hex n) (digits++ '\x7d'::rest) =
      consRead (Char.ofNat (digits.foldl (fun n d => n*16+hexValue d) n))
        (readQuoted .plain rest) := by
  induction digits generalizing n with
  | nil => simp [readQuoted]
  | cons d digits ih =>
    rw [List.cons_append,readQuoted,if_neg (hd d (by simp)),
      ih fun e he => hd e (by simp [he])]
    rfl

/-- One character is read back from its escape. -/
theorem readQuoted_escapeChar (c : Char) (rest : Text) :
    readQuoted .plain (escapeChar c++rest) = consRead c (readQuoted .plain rest) := by
  unfold escapeChar
  split_ifs with h₁ h₂ h₃ h₄ h₅ h₆
  · subst h₁; rfl
  · subst h₂; rfl
  · subst h₃; rfl
  · subst h₄; rfl
  · subst h₅; rfl
  · obtain ⟨hvalue,hdigits⟩ := digits_control h₆
    have hread := readQuoted_hex (fun d hd => (hdigits d hd).1) 0 rest
    rw [hvalue,Char.ofNat_toNat] at hread
    rw [← hread]
    simp [readQuoted,backslash,quoteMark]
  · rw [List.singleton_append,readQuoted,if_neg h₁,if_neg h₂]

theorem readQuoted_escaped (value rest : Text) :
    readQuoted .plain (value.flatMap escapeChar++quoteMark::rest) = some (value,rest) := by
  induction value with
  | nil => rfl
  | cons c value ih =>
    rw [List.flatMap_cons,List.append_assoc,readQuoted_escapeChar,ih]
    rfl

/-- A value is read back where the line ends or a space follows. -/
theorem readValue_quote (value rest : Text) (hrest : ∀ c, rest.head? = some c → c = ' ') :
    readValue (quote value++rest) = some (value,rest) := by
  unfold quote
  split
  · rw [List.cons_append,readValue,List.head?_cons,if_pos rfl,List.tail_cons,List.append_assoc,
      List.singleton_append]
    exact readQuoted_escaped value rest
  · rename_i h
    rw [not_or] at h
    have hplain : ∀ c ∈ value, isSpecial c = false := by
      intro c hc
      by_contra hs
      exact h.2 (List.any_eq_true.mpr ⟨c,hc,by simpa using hs⟩)
    obtain ⟨c,tail,rfl⟩ := List.exists_cons_of_ne_nil h.1
    have hne : ∀ d ∈ c::tail, (decide (d ≠ ' ')) = true := by
      intro d hd
      have hs := hplain d hd
      simp only [isSpecial,Bool.or_eq_false_iff,decide_eq_false_iff_not] at hs
      simp [hs.1.1.1.1]
    have hquote : c ≠ quoteMark := by
      have hs := hplain c (by simp)
      simp only [isSpecial,Bool.or_eq_false_iff,decide_eq_false_iff_not] at hs
      exact hs.1.1.2
    have hstop : rest.takeWhile (fun d => decide (d ≠ ' ')) = [] ∧
        rest.dropWhile (fun d => decide (d ≠ ' ')) = rest := by
      cases rest with
      | nil => simp
      | cons d rest =>
        rw [hrest d rfl]
        simp
    rw [readValue,if_neg (by simpa using hquote),List.takeWhile_append_of_pos hne,
      List.dropWhile_append_of_pos hne,hstop.1,hstop.2,List.append_nil]

/-- `quote` loses nothing. -/
theorem quote_injective : Function.Injective quote := by
  intro v w h
  have hv := readValue_quote v [] (by simp)
  have hw := readValue_quote w [] (by simp)
  rw [h,hw] at hv
  cases hv
  rfl

/-! ### Lines -/

/-- A key without spaces, equals signs, quotes and control characters. -/
def PlainKey (key : Text) : Prop :=
  ∀ c ∈ key, c ≠ ' ' ∧ c ≠ '=' ∧ c ≠ quoteMark ∧ isControl c = false

instance (key : Text) : Decidable (PlainKey key) :=
  inferInstanceAs (Decidable (∀ c ∈ key, _))

/-- The keys under which the message is recorded. -/
def NamesMessage (key : Text) : Prop := key = messageKey ∨ key = msgKey

instance (key : Text) : Decidable (NamesMessage key) :=
  inferInstanceAs (Decidable (_ ∨ _))

/-- A time without spaces and control characters, as RFC 3339 writes it. -/
def Stamp (now : Text) : Prop := ∀ c ∈ now, c ≠ ' ' ∧ isControl c = false

theorem flatMap_formatField_head (fields : List (Text × Text)) {c : Char}
    (h : (fields.flatMap formatField).head? = some c) : c = ' ' := by
  cases fields with
  | nil => cases h
  | cons f fields =>
    cases h
    rfl

/-- The fields are read back one after the other. -/
theorem readFields_formatField {fields : List (Text × Text)} (hkeys : ∀ f ∈ fields, PlainKey f.1)
    {fuel : ℕ} (hfuel : fields.length ≤ fuel) :
    readFields fuel (fields.flatMap formatField) = some fields := by
  induction fields generalizing fuel with
  | nil => cases fuel <;> rfl
  | cons f fields ih =>
    obtain ⟨n,rfl⟩ : ∃ n, fuel = n+1 := ⟨fuel-1,by simp at hfuel; omega⟩
    have hkey : ∀ c ∈ f.1, (decide (c ≠ '=')) = true := by
      intro c hc
      simp [(hkeys f (by simp) c hc).2.1]
    have hvalue := readValue_quote f.2 _ fun _ h => flatMap_formatField_head fields h
    have hrest : readFields n (fields.flatMap formatField) = some fields :=
      ih (fun g hg => hkeys g (by simp [hg])) (by simp at hfuel; omega)
    rw [List.flatMap_cons,formatField,List.cons_append,readFields,if_pos rfl,List.append_assoc,
      List.dropWhile_append_of_pos hkey,List.takeWhile_append_of_pos hkey,List.cons_append]
    simp [hvalue,hrest]

theorem length_le_formatField (fields : List (Text × Text)) :
    fields.length ≤ (fields.flatMap formatField).length := by
  induction fields with
  | nil => simp
  | cons f fields ih =>
    rw [List.flatMap_cons,List.length_append,formatField]
    simp only [List.length_cons]
    omega

theorem readLevel_text (level : Level) : readLevel level.text = some level := by
  cases level <;> decide

/-- What the visitor keeps beside the message has other keys. -/
theorem record_fields (event : Event) : event.record.fields =
    event.fields.filter fun f => ¬NamesMessage f.1 := by
  have hfold : ∀ (fields : List (Text × Text)) (visitor : FieldVisitor),
      (fields.foldl .push visitor).fields =
        visitor.fields++fields.filter fun f => ¬NamesMessage f.1 := by
    intro fields
    induction fields with
    | nil => simp
    | cons f fields ih =>
      intro visitor
      rw [List.foldl_cons,ih]
      by_cases h : NamesMessage f.1
      · have hpush : visitor.push f = { visitor with message := some f.2 } := if_pos h
        simp [hpush,h]
      · have hpush : visitor.push f = { visitor with fields := visitor.fields++[f] } := if_neg h
        simp [hpush,h]
  have hall := hfold event.fields ⟨none,[]⟩
  rwa [List.nil_append] at hall

theorem record_fields_name {event : Event} {f : Text × Text} (h : f ∈ event.record.fields) :
    f ∈ event.fields ∧ ¬NamesMessage f.1 := by
  rw [record_fields,List.mem_filter] at h
  exact ⟨h.1,by simpa using h.2⟩

/-- The line without its line break and its time. -/
def body (event : Event) : Text :=
  ['l','e','v','e','l','=']++event.level.text++
    ((event.record.message.map fun m => (msgKey,m)).toList++event.record.fields).flatMap formatField

theorem formatEvent_eq (timestamps : Bool) (now : Text) (event : Event) :
    formatEvent timestamps now event =
      (if timestamps then ['t','s','=']++now++[' '] else [])++body event++['\n'] := by
  simp [formatEvent,body]

/-- The decoder reads the level, the message and the other fields of any event. -/
theorem decodeLine_formatEvent {timestamps : Bool} {now : Text} (hnow : Stamp now) {event : Event}
    (hkeys : ∀ f ∈ event.fields, PlainKey f.1) :
    decodeLine timestamps (formatEvent timestamps now event) =
      some (event.level,event.record.message,event.record.fields) := by
  have hstart : (if timestamps = true then
      ((formatEvent timestamps now event).dropWhile (· ≠ ' ')).tail
      else formatEvent timestamps now event) = body event++['\n'] := by
    rw [formatEvent_eq]
    cases timestamps with
    | false => simp
    | true =>
      have hstamp : ∀ c ∈ ['t','s','=']++now, (decide (c ≠ ' ')) = true := by
        intro c hc
        have hts : ∀ c ∈ ['t','s','='], (decide (c ≠ ' ')) = true := by decide
        rcases List.mem_append.mp hc with hc | hc
        · exact hts c hc
        · simp [(hnow c hc).1]
      simp only [if_true,List.append_assoc]
      rw [← List.append_assoc,List.dropWhile_append_of_pos hstamp]
      simp
  have hlevel : ∀ c ∈ event.level.text, (decide (c ≠ ' ')) = true := by
    cases event.level <;> decide
  generalize hfields : (event.record.message.map fun m => (msgKey,m)).toList++event.record.fields =
    fields at *
  have hbody : body event = ['l','e','v','e','l','=']++event.level.text++
      fields.flatMap formatField := by
    rw [body,hfields]
  have hplain : ∀ f ∈ fields, PlainKey f.1 := by
    intro f hf
    rw [← hfields] at hf
    rcases List.mem_append.mp hf with hf | hf
    · obtain ⟨m,-,rfl⟩ : ∃ m, event.record.message = some m ∧ (msgKey,m) = f := by
        simpa using hf
      exact (by decide : PlainKey msgKey)
    · exact hkeys f (record_fields_name hf).1
  have hlen : fields.length ≤ (formatEvent timestamps now event).length := by
    have hle := length_le_formatField fields
    rw [formatEvent_eq,hbody]
    simp only [List.length_append]
    omega
  have hstop : (fields.flatMap formatField).takeWhile (fun c => decide (c ≠ ' ')) = [] ∧
      (fields.flatMap formatField).dropWhile (fun c => decide (c ≠ ' ')) =
        fields.flatMap formatField := by
    cases fields with
    | nil => simp
    | cons f fields => simp [formatField]
  have hdrop : (body event).drop 6 = event.level.text++fields.flatMap formatField := by
    rw [hbody,List.append_assoc]
    rfl
  unfold decodeLine
  simp only [hstart,List.dropLast_concat]
  rw [hdrop,List.takeWhile_append_of_pos hlevel,List.dropWhile_append_of_pos hlevel,hstop.1,
    hstop.2,List.append_nil,readLevel_text,readFields_formatField hplain hlen]
  simp only [Option.bind_some,Option.map_some,Option.some.injEq]
  cases hm : event.record.message with
  | some m =>
    rw [hm] at hfields
    subst hfields
    simp
  | none =>
    rw [hm] at hfields
    have hfields : event.record.fields = fields := hfields
    cases fields with
    | nil => simp [hfields]
    | cons f fields =>
      have hmem : f ∈ event.record.fields := by simp [hfields]
      have hname := (record_fields_name hmem).2
      have hkey : f.1 ≠ msgKey := fun h => hname (.inr h)
      simp [hkey,hfields]

/-! ### What a line cannot contain -/

theorem escapeChar_noControl {c d : Char} (h : d ∈ escapeChar c) : isControl d = false := by
  have hpair : ∀ e : Char, isControl e = false → ∀ d ∈ [backslash,e], isControl d = false := by
    intro e he d hd
    rcases List.mem_cons.mp hd with rfl | hd
    · decide
    · rwa [List.mem_singleton.mp hd]
  unfold escapeChar at h
  split_ifs at h with h₁ h₂ h₃ h₄ h₅ h₆
  · exact hpair quoteMark (by decide) d h
  · exact hpair backslash (by decide) d h
  · exact hpair 'n' (by decide) d h
  · exact hpair 'r' (by decide) d h
  · exact hpair 't' (by decide) d h
  · have hfront : ∀ d ∈ [backslash,'u','\x7b'], isControl d = false := by decide
    have hback : ∀ d ∈ ['\x7d'], isControl d = false := by decide
    rcases List.mem_append.mp h with h | h
    · rcases List.mem_append.mp h with h | h
      · exact hfront d h
      · exact ((digits_control h₆).2 d h).2
    · exact hback d h
  · rw [List.mem_singleton.mp h]
    simpa using h₆

theorem quote_noControl {value : Text} {c : Char} (h : c ∈ quote value) : isControl c = false := by
  have hmark : isControl quoteMark = false := by decide
  unfold quote at h
  split at h
  · rcases List.mem_cons.mp h with rfl | h
    · exact hmark
    · rcases List.mem_append.mp h with h | h
      · obtain ⟨d,-,hd⟩ := List.mem_flatMap.mp h
        exact escapeChar_noControl hd
      · rw [List.mem_singleton.mp h]
        exact hmark
  · rename_i hno
    rw [not_or] at hno
    by_contra hc
    have hspecial : isSpecial c = true := by
      simp only [isSpecial,Bool.or_eq_true]
      exact .inr (by simpa using hc)
    exact hno.2 (List.any_eq_true.mpr ⟨c,h,hspecial⟩)

theorem formatField_noControl {f : Text × Text} (hkey : PlainKey f.1) {c : Char}
    (h : c ∈ formatField f) : isControl c = false := by
  rcases List.mem_cons.mp h with rfl | h
  · decide
  · rcases List.mem_append.mp h with h | h
    · exact (hkey c h).2.2.2
    · rcases List.mem_cons.mp h with rfl | h
      · decide
      · exact quote_noControl h

theorem body_noControl {event : Event} (hkeys : ∀ f ∈ event.fields, PlainKey f.1) {c : Char}
    (h : c ∈ body event) : isControl c = false := by
  have hlevel : ∀ c ∈ ['l','e','v','e','l','=']++event.level.text, isControl c = false := by
    cases event.level <;> decide
  rcases List.mem_append.mp h with h | h
  · exact hlevel c h
  · obtain ⟨f,hf,hc⟩ := List.mem_flatMap.mp h
    apply formatField_noControl ?_ hc
    rcases List.mem_append.mp hf with hf | hf
    · obtain ⟨m,-,rfl⟩ : ∃ m, event.record.message = some m ∧ (msgKey,m) = f := by
        simpa using hf
      exact (by decide : PlainKey msgKey)
    · exact hkeys f (record_fields_name hf).1

/-- One line, and on it no control character. -/
theorem formatEvent_line {timestamps : Bool} {now : Text} (hnow : Stamp now) {event : Event}
    (hkeys : ∀ f ∈ event.fields, PlainKey f.1) :
    ∃ line, formatEvent timestamps now event = line++['\n'] ∧ ∀ c ∈ line, isControl c = false := by
  refine ⟨_,formatEvent_eq timestamps now event,?_⟩
  intro c hc
  rcases List.mem_append.mp hc with hc | hc
  · split at hc
    · have hts : ∀ c ∈ ['t','s','='], isControl c = false := by decide
      rcases List.mem_append.mp hc with hc | hc
      · rcases List.mem_append.mp hc with hc | hc
        · exact hts c hc
        · exact (hnow c hc).2
      · rw [List.mem_singleton.mp hc]
        decide
    · cases hc
  · exact body_noControl hkeys hc

/-! ### Events -/

/-- An event as it is recorded: its message under `message`, then its fields. -/
def Event.of (level : Level) (message : Option Text) (fields : List (Text × Text)) : Event where
  level := level
  fields := (message.map fun m => (messageKey,m)).toList++fields

/-- Some decoder recovers the level, the message and all fields with allowed keys. -/
def Recoverable (allowed : Text → Prop) (timestamps : Bool) : Prop :=
  ∃ decode : Text → Option (Level × Option Text × List (Text × Text)),
    ∀ now, Stamp now → ∀ level message fields, (∀ f ∈ fields, PlainKey f.1 ∧ allowed f.1) →
      decode (formatEvent timestamps now (.of level message fields)) = some (level,message,fields)

/-- Fields that do not name the message leave it as it is. -/
theorem record_of {level : Level} {message : Option Text} {fields : List (Text × Text)}
    (h : ∀ f ∈ fields, ¬NamesMessage f.1) :
    (Event.of level message fields).record = ⟨message,fields⟩ := by
  have hfold : ∀ (fields : List (Text × Text)) (visitor : FieldVisitor),
      (∀ f ∈ fields, ¬NamesMessage f.1) →
      fields.foldl .push visitor = { visitor with fields := visitor.fields++fields } := by
    intro fields
    induction fields with
    | nil => simp
    | cons f fields ih =>
      intro visitor hf
      have hpush : visitor.push f = { visitor with fields := visitor.fields++[f] } :=
        if_neg (hf f (by simp))
      rw [List.foldl_cons,hpush,ih _ fun g hg => hf g (by simp [hg])]
      simp
  cases message with
  | none => simpa [Event.record,Event.of] using hfold fields ⟨none,[]⟩ h
  | some m =>
    have hpush : FieldVisitor.push ⟨none,[]⟩ (messageKey,m) = ⟨some m,[]⟩ := if_pos (.inl rfl)
    simpa [Event.record,Event.of,hpush] using hfold fields ⟨some m,[]⟩ h

theorem plainKey_of (level : Level) (message : Option Text) {fields : List (Text × Text)}
    (h : ∀ f ∈ fields, PlainKey f.1) : ∀ f ∈ (Event.of level message fields).fields,
      PlainKey f.1 := by
  intro f hf
  rcases List.mem_append.mp hf with hf | hf
  · obtain ⟨m,-,rfl⟩ : ∃ m, message = some m ∧ (messageKey,m) = f := by
      simpa using hf
    exact (by decide : PlainKey messageKey)
  · exact h f hf

/-- A field under the key of the message cannot be told from the message. -/
theorem message_key_ambiguous : ¬Recoverable (fun _ => True) false := by
  rintro ⟨decode,h⟩
  have hstamp : Stamp [] := by simp [Stamp]
  have hfield := h [] hstamp .info none [(msgKey,['x'])] (by decide)
  have hmessage := h [] hstamp .info (some ['x']) [] (by simp)
  have hsame : formatEvent false [] (.of .info none [(msgKey,['x'])]) =
      formatEvent false [] (.of .info (some ['x']) []) := by decide
  rw [hsame,hmessage] at hfield
  cases hfield

/-- What can be recovered is not the same for two events. -/
theorem Recoverable.injective {allowed : Text → Prop} {timestamps : Bool}
    (h : Recoverable allowed timestamps) {now now' : Text} (hnow : Stamp now) (hnow' : Stamp now')
    {level level' : Level} {message message' : Option Text} {fields fields' : List (Text × Text)}
    (hf : ∀ f ∈ fields, PlainKey f.1 ∧ allowed f.1)
    (hf' : ∀ f ∈ fields', PlainKey f.1 ∧ allowed f.1)
    (heq : formatEvent timestamps now (.of level message fields) =
      formatEvent timestamps now' (.of level' message' fields')) :
    level = level' ∧ message = message' ∧ fields = fields' := by
  obtain ⟨decode,hdecode⟩ := h
  have hl := hdecode now hnow level message fields hf
  rw [heq,hdecode now' hnow' level' message' fields' hf'] at hl
  simp only [Option.some.injEq,Prod.mk.injEq] at hl
  exact ⟨hl.1.symm,hl.2.1.symm,hl.2.2.symm⟩

/-- Log lines cannot be forged. -/
theorem log_lines_not_forged (timestamps : Bool) :
    (∀ now, Stamp now → ∀ event : Event, (∀ f ∈ event.fields, PlainKey f.1) →
      (∃ line, formatEvent timestamps now event = line++['\n'] ∧
        ∀ c ∈ line, isControl c = false) ∧
      decodeLine timestamps (formatEvent timestamps now event) =
        some (event.level,event.record.message,event.record.fields)) ∧
    Recoverable (fun key => ¬NamesMessage key) timestamps ∧ Function.Injective quote ∧
    ∀ now now', Stamp now → Stamp now' → ∀ level level' message message' fields fields',
      (∀ f ∈ fields++fields', PlainKey f.1 ∧ ¬NamesMessage f.1) →
      formatEvent timestamps now (.of level message fields) =
        formatEvent timestamps now' (.of level' message' fields') →
      level = level' ∧ message = message' ∧ fields = fields' := by
  have hrecover : Recoverable (fun key => ¬NamesMessage key) timestamps := by
    refine ⟨decodeLine timestamps,?_⟩
    intro now hnow level message fields h
    have hkeys := plainKey_of level message fun f hf => (h f hf).1
    rw [decodeLine_formatEvent hnow hkeys,record_of fun f hf => (h f hf).2]
    rfl
  refine ⟨?_,hrecover,quote_injective,?_⟩
  · intro now hnow event hkeys
    exact ⟨formatEvent_line hnow hkeys,decodeLine_formatEvent hnow hkeys⟩
  · intro now now' hnow hnow' level level' message message' fields fields' hf heq
    exact hrecover.injective hnow hnow' (fun f hm => hf f (by simp [hm]))
      (fun f hm => hf f (by simp [hm])) heq

/-! ### A value that looks like another line -/

/-- A quote, a line break and a field of its own. -/
def forgery : Text := [quoteMark,'\n','l','e','v','e','l','=',Char.ofNat 7]

def forged : Event := ⟨.warn,[(['o','p'],forgery),(messageKey,forgery)]⟩

def midnight : Text := "2026-01-31T00:00:00.125Z".toList

theorem log_lines_not_forged_run : decodeLine true (formatEvent true midnight forged) =
    some (.warn,some forgery,[(['o','p'],forgery)]) := by
  have hstamp : Stamp midnight := by
    unfold Stamp midnight
    decide
  exact ((log_lines_not_forged true).1 _ hstamp forged (by decide)).2

end Byssus.Logging
