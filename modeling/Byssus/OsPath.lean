import Byssus.Path

/-! Operating system paths: byte strings that need not be UTF-8. -/
namespace Byssus

/-- `PathBuf`. -/
abbrev PathBuf := List UInt8

/-- The ranges of the bytes that may follow a first byte in UTF-8. -/
def continuation (b : UInt8) : Option (List (UInt8 × UInt8)) :=
  let any : UInt8 × UInt8 := (0x80,0xbf)
  if b < 0x80 then some []
  else if 0xc2 ≤ b ∧ b ≤ 0xdf then some [any]
  else if b = 0xe0 then some [(0xa0,0xbf),any]
  else if b = 0xed then some [(0x80,0x9f),any]
  else if 0xe1 ≤ b ∧ b ≤ 0xef then some [any,any]
  else if b = 0xf0 then some [(0x90,0xbf),any,any]
  else if 0xf1 ≤ b ∧ b ≤ 0xf3 then some [any,any,any]
  else if b = 0xf4 then some [(0x80,0x8f),any,any]
  else none

/-- How many of the bytes lie in the ranges. -/
def matched : List (UInt8 × UInt8) → List UInt8 → ℕ
  | (low,high)::ranges, b::rest => if low ≤ b ∧ b ≤ high then matched ranges rest+1 else 0
  | _, _ => 0

/-- The character that a first byte and its continuation encode. -/
def scalar (first : UInt8) (rest : List UInt8) : Char :=
  let lead := match rest.length with
    | 0 => first.toNat
    | 1 => first.toNat%32
    | 2 => first.toNat%16
    | _ => first.toNat%8
  Char.ofNat (rest.foldl (fun n b => n*64+b.toNat%64) lead)

/-- The characters of a byte string, and where they fail to be UTF-8: once for every
longest part that could still begin a character. -/
def decode : List UInt8 → List (Option Char)
  | [] => []
  | b::rest =>
    match continuation b with
    | none => none::decode rest
    | some ranges =>
      let n := matched ranges rest
      (if n = ranges.length then some (scalar b (rest.take n)) else none)::decode (rest.drop n)
termination_by bytes => bytes.length

/-- `OsStr::to_str`. -/
def toStr (bytes : List UInt8) : Option Text := (decode bytes).mapM id

namespace PathBuf

/-- `Path::display`, as it is formatted. -/
def display (p : PathBuf) : String :=
  String.ofList ((decode p).map fun c => c.getD (Char.ofNat 0xfffd))

def slash : UInt8 := 47
def dot : UInt8 := 46

/-- The components but the root and `.`. -/
def parts (p : PathBuf) : List PathBuf := (p.splitOn slash).filter fun c => c ≠ [] ∧ c ≠ [dot]

/-- `Path::file_name`. -/
def fileName (p : PathBuf) : Option PathBuf := p.parts.getLast?.filter (· ≠ [dot,dot])

/-- `Path::parent` of an absolute path without `.` components. -/
def parent (p : PathBuf) : Option PathBuf :=
  if p.parts = [] then none else some (slash::List.intercalate [slash] p.parts.dropLast)

/-- `Path::join` of a file name. -/
def join (dir name : PathBuf) : PathBuf :=
  if dir = [] ∨ dir.getLast? = some slash then dir++name else dir++slash::name

end PathBuf

/-- `file_name_of`. -/
def fileNameOf (p : PathBuf) : Text := (p.fileName.bind toStr).getD []

/-- A path given as text. -/
def pathOf (s : Text) : PathBuf := s.flatMap String.utf8EncodeChar

/-! ### What is encoded is decoded -/

theorem continuation_ofNat {n : ℕ} (hn : n < 256) : continuation (UInt8.ofNat n) =
    if n < 0x80 then some []
    else if 0xc2 ≤ n ∧ n ≤ 0xdf then some [(0x80,0xbf)]
    else if n = 0xe0 then some [(0xa0,0xbf),(0x80,0xbf)]
    else if n = 0xed then some [(0x80,0x9f),(0x80,0xbf)]
    else if 0xe1 ≤ n ∧ n ≤ 0xef then some [(0x80,0xbf),(0x80,0xbf)]
    else if n = 0xf0 then some [(0x90,0xbf),(0x80,0xbf),(0x80,0xbf)]
    else if 0xf1 ≤ n ∧ n ≤ 0xf3 then some [(0x80,0xbf),(0x80,0xbf),(0x80,0xbf)]
    else if n = 0xf4 then some [(0x80,0x8f),(0x80,0xbf),(0x80,0xbf)]
    else none := by
  have hnat : (UInt8.ofNat n).toNat = n := by simp [UInt8.toNat_ofNat',Nat.mod_eq_of_lt hn]
  have heq : ∀ b : UInt8, UInt8.ofNat n = b ↔ n = b.toNat := by
    intro b
    rw [← UInt8.toNat_inj,hnat]
  unfold continuation
  simp only [UInt8.lt_iff_toNat_lt,UInt8.le_iff_toNat_le,hnat,heq,UInt8.reduceToNat]

theorem matched_cons {low high : UInt8} {ranges : List (UInt8 × UInt8)} {n : ℕ} (hn : n < 256)
    (rest : List UInt8) : matched ((low,high)::ranges) (UInt8.ofNat n::rest) =
      if low.toNat ≤ n ∧ n ≤ high.toNat then matched ranges rest+1 else 0 := by
  have hnat : (UInt8.ofNat n).toNat = n := by simp [UInt8.toNat_ofNat',Nat.mod_eq_of_lt hn]
  simp only [matched,UInt8.le_iff_toNat_le,hnat]

@[simp] theorem matched_nil (bytes : List UInt8) : matched [] bytes = 0 := by
  cases bytes <;> rfl

theorem decode_cons {b : UInt8} {ranges : List (UInt8 × UInt8)} (tail rest : List UInt8)
    (hb : continuation b = some ranges) (hlen : tail.length = ranges.length)
    (hm : matched ranges (tail++rest) = ranges.length) :
    decode (b::(tail++rest)) = some (scalar b tail)::decode rest := by
  have htake : (tail++rest).take (matched ranges (tail++rest)) = tail := by
    rw [hm,← hlen,List.take_left]
  have hdrop : (tail++rest).drop (matched ranges (tail++rest)) = rest := by
    rw [hm,← hlen,List.drop_left]
  rw [decode,hb]
  simp only [htake,hdrop]
  rw [if_pos hm]

theorem toNat_ofNat_of_lt {n : ℕ} (hn : n < 256) : (UInt8.ofNat n).toNat = n := by
  simp [UInt8.toNat_ofNat',Nat.mod_eq_of_lt hn]

/-- What is encoded is decoded. -/
theorem decode_append (c : Char) (rest : List UInt8) :
    decode (String.utf8EncodeChar c++rest) = some c::decode rest := by
  have hv : c.toNat < 0xd800 ∨ 0xdfff < c.toNat ∧ c.toNat < 0x110000 := c.valid
  have hchar : Char.ofNat c.toNat = c := Char.ofNat_toNat c
  unfold String.utf8EncodeChar
  rw [Char.toNat] at hv hchar
  generalize c.val.toNat = v at hv hchar
  simp only
  split_ifs with h₁ h₂ h₃
  · have hlt : v < 256 := by omega
    have hcont := (continuation_ofNat hlt).trans (if_pos (by omega))
    have hdec := decode_cons [] rest hcont rfl (matched_nil _)
    have hscalar : scalar (UInt8.ofNat v) [] = c := by
      simp only [scalar,List.length_nil,List.foldl_nil,toNat_ofNat_of_lt hlt,hchar]
    rwa [hscalar] at hdec
  · have h0 : v/64%0x20+0xc0 < 256 := by omega
    have h1 : v%0x40+0x80 < 256 := by omega
    have hcont : continuation (UInt8.ofNat (v/64%0x20+0xc0)) = some [(0x80,0xbf)] := by
      rw [continuation_ofNat h0,if_neg (by omega),if_pos (by omega)]
    have hdec := decode_cons [UInt8.ofNat (v%0x40+0x80)] rest hcont rfl (by
      simp only [List.singleton_append,matched_cons h1,UInt8.reduceToNat,matched_nil]
      rw [if_pos (by omega)]
      rfl)
    have hscalar : scalar (UInt8.ofNat (v/64%0x20+0xc0)) [UInt8.ofNat (v%0x40+0x80)] = c := by
      simp only [scalar,List.length_cons,List.length_nil,List.foldl_cons,List.foldl_nil,
        toNat_ofNat_of_lt h0,toNat_ofNat_of_lt h1]
      rw [← hchar]
      congr 1
      omega
    rwa [hscalar] at hdec
  · have h0 : v/4096%0x10+0xe0 < 256 := by omega
    have h1 : v/64%0x40+0x80 < 256 := by omega
    have h2 : v%0x40+0x80 < 256 := by omega
    -- No character is written longer than needed, or is a surrogate.
    have hcont : ∃ low high, continuation (UInt8.ofNat (v/4096%0x10+0xe0)) =
        some [(low,high),(0x80,0xbf)] ∧ low.toNat ≤ v/64%0x40+0x80 ∧
        v/64%0x40+0x80 ≤ high.toNat := by
      rw [continuation_ofNat h0,if_neg (by omega),if_neg (by omega)]
      by_cases he0 : v/4096%0x10+0xe0 = 0xe0
      · exact ⟨0xa0,0xbf,if_pos he0,by simp; omega,by simp; omega⟩
      · rw [if_neg he0]
        by_cases hed : v/4096%0x10+0xe0 = 0xed
        · exact ⟨0x80,0x9f,if_pos hed,by simp,by simp; omega⟩
        · rw [if_neg hed]
          exact ⟨0x80,0xbf,if_pos (by omega),by simp,by simp; omega⟩
    obtain ⟨low,high,hcont,hlow,hhigh⟩ := hcont
    have hdec := decode_cons [UInt8.ofNat (v/64%0x40+0x80),UInt8.ofNat (v%0x40+0x80)] rest
      hcont rfl (by
        simp only [List.cons_append,List.nil_append,matched_cons h1,matched_cons h2,
          UInt8.reduceToNat,matched_nil]
        rw [if_pos ⟨hlow,hhigh⟩,if_pos (by omega)]
        rfl)
    have hscalar : scalar (UInt8.ofNat (v/4096%0x10+0xe0))
        [UInt8.ofNat (v/64%0x40+0x80),UInt8.ofNat (v%0x40+0x80)] = c := by
      simp only [scalar,List.length_cons,List.length_nil,List.foldl_cons,List.foldl_nil,
        toNat_ofNat_of_lt h0,toNat_ofNat_of_lt h1,toNat_ofNat_of_lt h2]
      rw [← hchar]
      congr 1
      omega
    rwa [hscalar] at hdec
  · have h0 : v/262144%0x08+0xf0 < 256 := by omega
    have h1 : v/4096%0x40+0x80 < 256 := by omega
    have h2 : v/64%0x40+0x80 < 256 := by omega
    have h3 : v%0x40+0x80 < 256 := by omega
    have hcont : ∃ low high, continuation (UInt8.ofNat (v/262144%0x08+0xf0)) =
        some [(low,high),(0x80,0xbf),(0x80,0xbf)] ∧ low.toNat ≤ v/4096%0x40+0x80 ∧
        v/4096%0x40+0x80 ≤ high.toNat := by
      rw [continuation_ofNat h0,if_neg (by omega),if_neg (by omega),if_neg (by omega),
        if_neg (by omega),if_neg (by omega)]
      by_cases hf0 : v/262144%0x08+0xf0 = 0xf0
      · exact ⟨0x90,0xbf,if_pos hf0,by simp; omega,by simp; omega⟩
      · rw [if_neg hf0]
        by_cases hf4 : v/262144%0x08+0xf0 = 0xf4
        · rw [if_neg (by omega)]
          exact ⟨0x80,0x8f,if_pos hf4,by simp,by simp; omega⟩
        · exact ⟨0x80,0xbf,if_pos (by omega),by simp,by simp; omega⟩
    obtain ⟨low,high,hcont,hlow,hhigh⟩ := hcont
    have hdec := decode_cons [UInt8.ofNat (v/4096%0x40+0x80),UInt8.ofNat (v/64%0x40+0x80),
      UInt8.ofNat (v%0x40+0x80)] rest hcont rfl (by
        simp only [List.cons_append,List.nil_append,matched_cons h1,matched_cons h2,
          matched_cons h3,UInt8.reduceToNat,matched_nil]
        rw [if_pos ⟨hlow,hhigh⟩,if_pos (by omega),if_pos (by omega)]
        rfl)
    have hscalar : scalar (UInt8.ofNat (v/262144%0x08+0xf0)) [UInt8.ofNat (v/4096%0x40+0x80),
        UInt8.ofNat (v/64%0x40+0x80),UInt8.ofNat (v%0x40+0x80)] = c := by
      simp only [scalar,List.length_cons,List.length_nil,List.foldl_cons,List.foldl_nil,
        toNat_ofNat_of_lt h0,toNat_ofNat_of_lt h1,toNat_ofNat_of_lt h2,toNat_ofNat_of_lt h3]
      rw [← hchar]
      congr 1
      omega
    rwa [hscalar] at hdec

theorem decode_pathOf (s : Text) : decode (pathOf s) = s.map some := by
  induction s with
  | nil => rw [pathOf,List.flatMap_nil,decode,List.map_nil]
  | cons c s ih =>
    have htail : decode (s.flatMap String.utf8EncodeChar) = s.map some := ih
    rw [pathOf,List.flatMap_cons,decode_append,htail,List.map_cons]

/-! ### What is decoded is encoded -/

theorem encode_ofNat {v : ℕ} (hv : v.isValidChar) : String.utf8EncodeChar (Char.ofNat v) =
    if v ≤ 0x7f then [UInt8.ofNat v]
    else if v ≤ 0x7ff then [UInt8.ofNat (v/64%0x20+0xc0),UInt8.ofNat (v%0x40+0x80)]
    else if v ≤ 0xffff then [UInt8.ofNat (v/4096%0x10+0xe0),UInt8.ofNat (v/64%0x40+0x80),
      UInt8.ofNat (v%0x40+0x80)]
    else [UInt8.ofNat (v/262144%0x08+0xf0),UInt8.ofNat (v/4096%0x40+0x80),
      UInt8.ofNat (v/64%0x40+0x80),UInt8.ofNat (v%0x40+0x80)] := by
  have hval : (Char.ofNat v).val.toNat = v := by
    rw [Char.ofNat,dif_pos hv]
    rfl
  unfold String.utf8EncodeChar
  rw [hval]

theorem exists_ofNat (b : UInt8) : ∃ n < 256, b = UInt8.ofNat n :=
  ⟨b.toNat,b.toNat_lt,by simp⟩

/-- The bytes that match are those of the character that they encode. -/
theorem encode_scalar {b : UInt8} {ranges : List (UInt8 × UInt8)} {rest : List UInt8}
    (hb : continuation b = some ranges) (hm : matched ranges rest = ranges.length) :
    String.utf8EncodeChar (scalar b (rest.take ranges.length)) = b::rest.take ranges.length := by
  have hone : ∀ {low high : UInt8} {ranges : List (UInt8 × UInt8)} {rest : List UInt8},
      matched ((low,high)::ranges) rest = ranges.length+1 → ∃ m tail, m < 256 ∧
        rest = UInt8.ofNat m::tail ∧ low.toNat ≤ m ∧ m ≤ high.toNat ∧
          matched ranges tail = ranges.length := by
    intro low high ranges rest h
    cases rest with
    | nil => cases h
    | cons r tail =>
      obtain ⟨m,hm,rfl⟩ := exists_ofNat r
      rw [matched_cons hm] at h
      split_ifs at h with hr
      · exact ⟨m,tail,hm,rfl,hr.1,hr.2,by omega⟩
  have hnat := @toNat_ofNat_of_lt
  -- Two bytes, three and four.
  have htwo : ∀ n m, 0xc2 ≤ n → n ≤ 0xdf → 0x80 ≤ m → m ≤ 0xbf →
      String.utf8EncodeChar (scalar (UInt8.ofNat n) [UInt8.ofNat m]) =
        [UInt8.ofNat n,UInt8.ofNat m] := by
    intro n m h₁ h₂ h₃ h₄
    simp only [scalar,List.length_cons,List.length_nil,List.foldl_cons,List.foldl_nil,
      hnat (show n < 256 by omega),hnat (show m < 256 by omega)]
    have e₀ : (n%32*64+m%64)/64%0x20+0xc0 = n := by omega
    have e₁ : (n%32*64+m%64)%0x40+0x80 = m := by omega
    rw [encode_ofNat (.inl (by omega)),if_neg (by omega),if_pos (by omega),e₀,e₁]
  have hthree : ∀ n m₁ m₂, 0xe0 ≤ n → n ≤ 0xef → (n = 0xe0 → 0xa0 ≤ m₁) → (n = 0xed → m₁ ≤ 0x9f) →
      0x80 ≤ m₁ → m₁ ≤ 0xbf → 0x80 ≤ m₂ → m₂ ≤ 0xbf →
      String.utf8EncodeChar (scalar (UInt8.ofNat n) [UInt8.ofNat m₁,UInt8.ofNat m₂]) =
        [UInt8.ofNat n,UInt8.ofNat m₁,UInt8.ofNat m₂] := by
    intro n m₁ m₂ h₁ h₂ h₃ h₄ h₅ h₆ h₇ h₈
    have hvalid : ((n%16*64+m₁%64)*64+m₂%64).isValidChar := by
      by_cases hn : n ≤ 0xed
      · exact .inl (by omega)
      · exact .inr ⟨by omega,by omega⟩
    simp only [scalar,List.length_cons,List.length_nil,List.foldl_cons,List.foldl_nil,
      hnat (show n < 256 by omega),hnat (show m₁ < 256 by omega),hnat (show m₂ < 256 by omega)]
    have e₀ : ((n%16*64+m₁%64)*64+m₂%64)/4096%0x10+0xe0 = n := by omega
    have e₁ : ((n%16*64+m₁%64)*64+m₂%64)/64%0x40+0x80 = m₁ := by omega
    have e₂ : ((n%16*64+m₁%64)*64+m₂%64)%0x40+0x80 = m₂ := by omega
    rw [encode_ofNat hvalid,if_neg (by omega),if_neg (by omega),if_pos (by omega),e₀,e₁,e₂]
  have hfour : ∀ n m₁ m₂ m₃, 0xf0 ≤ n → n ≤ 0xf4 → (n = 0xf0 → 0x90 ≤ m₁) →
      (n = 0xf4 → m₁ ≤ 0x8f) → 0x80 ≤ m₁ → m₁ ≤ 0xbf → 0x80 ≤ m₂ → m₂ ≤ 0xbf → 0x80 ≤ m₃ →
      m₃ ≤ 0xbf →
      String.utf8EncodeChar
        (scalar (UInt8.ofNat n) [UInt8.ofNat m₁,UInt8.ofNat m₂,UInt8.ofNat m₃]) =
        [UInt8.ofNat n,UInt8.ofNat m₁,UInt8.ofNat m₂,UInt8.ofNat m₃] := by
    intro n m₁ m₂ m₃ h₁ h₂ h₃ h₄ h₅ h₆ h₇ h₈ h₉ h₁₀
    have hvalid : (((n%8*64+m₁%64)*64+m₂%64)*64+m₃%64).isValidChar := by
      exact .inr ⟨by omega,by omega⟩
    simp only [scalar,List.length_cons,List.length_nil,List.foldl_cons,List.foldl_nil,
      hnat (show n < 256 by omega),hnat (show m₁ < 256 by omega),hnat (show m₂ < 256 by omega),
      hnat (show m₃ < 256 by omega)]
    have e₀ : (((n%8*64+m₁%64)*64+m₂%64)*64+m₃%64)/262144%0x08+0xf0 = n := by omega
    have e₁ : (((n%8*64+m₁%64)*64+m₂%64)*64+m₃%64)/4096%0x40+0x80 = m₁ := by omega
    have e₂ : (((n%8*64+m₁%64)*64+m₂%64)*64+m₃%64)/64%0x40+0x80 = m₂ := by omega
    have e₃ : (((n%8*64+m₁%64)*64+m₂%64)*64+m₃%64)%0x40+0x80 = m₃ := by omega
    rw [encode_ofNat hvalid,if_neg (by omega),if_neg (by omega),if_neg (by omega),e₀,e₁,e₂,e₃]
  obtain ⟨n,hn,rfl⟩ := exists_ofNat b
  rw [continuation_ofNat hn] at hb
  split_ifs at hb with h₁ h₂ h₃ h₄ h₅ h₆ h₇ h₈ <;> cases hb
  · rw [List.length_nil,List.take_zero]
    simp only [scalar,List.length_nil,List.foldl_nil,hnat hn]
    rw [encode_ofNat (.inl (by omega)),if_pos (by omega)]
  · obtain ⟨m,tail,hm',rfl,hl,hh,-⟩ := hone hm
    exact htwo n m h₂.1 h₂.2 hl hh
  · obtain ⟨m₁,tail,-,rfl,hl,hh,hm⟩ := hone hm
    obtain ⟨m₂,tail,-,rfl,hl',hh',-⟩ := hone hm
    simp only [UInt8.reduceToNat] at hl hh hl' hh'
    exact hthree n m₁ m₂ (by omega) (by omega) (by omega) (by omega) (by omega) hh hl' hh'
  · obtain ⟨m₁,tail,-,rfl,hl,hh,hm⟩ := hone hm
    obtain ⟨m₂,tail,-,rfl,hl',hh',-⟩ := hone hm
    simp only [UInt8.reduceToNat] at hl hh hl' hh'
    exact hthree n m₁ m₂ (by omega) (by omega) (by omega) (by omega) hl (by omega) hl' hh'
  · obtain ⟨m₁,tail,-,rfl,hl,hh,hm⟩ := hone hm
    obtain ⟨m₂,tail,-,rfl,hl',hh',-⟩ := hone hm
    simp only [UInt8.reduceToNat] at hl hh hl' hh'
    exact hthree n m₁ m₂ (by omega) (by omega) (by omega) (by omega) hl hh hl' hh'
  · obtain ⟨m₁,tail,-,rfl,hl,hh,hm⟩ := hone hm
    obtain ⟨m₂,tail,-,rfl,hl',hh',hm⟩ := hone hm
    obtain ⟨m₃,tail,-,rfl,hl'',hh'',-⟩ := hone hm
    simp only [UInt8.reduceToNat] at hl hh hl' hh' hl'' hh''
    exact hfour n m₁ m₂ m₃ (by omega) (by omega) (by omega) (by omega) (by omega) hh hl' hh' hl''
      hh''
  · obtain ⟨m₁,tail,-,rfl,hl,hh,hm⟩ := hone hm
    obtain ⟨m₂,tail,-,rfl,hl',hh',hm⟩ := hone hm
    obtain ⟨m₃,tail,-,rfl,hl'',hh'',-⟩ := hone hm
    simp only [UInt8.reduceToNat] at hl hh hl' hh' hl'' hh''
    exact hfour n m₁ m₂ m₃ (by omega) (by omega) (by omega) (by omega) hl hh hl' hh' hl'' hh''
  · obtain ⟨m₁,tail,-,rfl,hl,hh,hm⟩ := hone hm
    obtain ⟨m₂,tail,-,rfl,hl',hh',hm⟩ := hone hm
    obtain ⟨m₃,tail,-,rfl,hl'',hh'',-⟩ := hone hm
    simp only [UInt8.reduceToNat] at hl hh hl' hh' hl'' hh''
    exact hfour n m₁ m₂ m₃ (by omega) (by omega) (by omega) (by omega) hl (by omega) hl' hh' hl''
      hh''

/-- Bytes that are UTF-8 are those of their text. -/
theorem pathOf_of_toStr {bytes : List UInt8} {s : Text} (h : toStr bytes = some s) :
    pathOf s = bytes := by
  induction hlen : bytes.length using Nat.strong_induction_on generalizing bytes s with
  | _ k ih =>
    cases bytes with
    | nil =>
      rw [toStr,decode] at h
      cases h
      rfl
    | cons b rest =>
      rw [toStr,decode] at h
      cases hc : continuation b with
      | none =>
        rw [hc] at h
        simp at h
      | some ranges =>
        rw [hc] at h
        simp only [List.mapM_cons,id] at h
        split_ifs at h with hn
        · simp only [Option.bind_eq_bind,Option.bind_some] at h
          obtain ⟨s',hs,heq⟩ := Option.bind_eq_some_iff.mp h
          cases heq
          have htail := ih (rest.drop (matched ranges rest)).length (by simp at hlen ⊢; omega)
            hs rfl
          rw [pathOf,List.flatMap_cons,hn,encode_scalar hc hn,← pathOf,htail,hn,List.cons_append,
            List.take_append_drop]
        · cases h

@[simp] theorem toStr_pathOf (s : Text) : toStr (pathOf s) = some s := by
  rw [toStr,decode_pathOf]
  induction s with
  | nil => rfl
  | cons c s ih => simp [List.mapM_cons,ih]

theorem toNat_eq_of_mem_encode {c : Char} {b : UInt8} (hb : b.toNat < 128)
    (h : b ∈ String.utf8EncodeChar c) : c.toNat = b.toNat := by
  have hbig : ∀ n : ℕ, 128 ≤ n → n < 256 → b ≠ UInt8.ofNat n := by
    intro n hn hlt heq
    rw [heq,toNat_ofNat_of_lt hlt] at hb
    omega
  unfold String.utf8EncodeChar at h
  rw [Char.toNat]
  generalize c.val.toNat = v at h
  simp only at h
  split_ifs at h with h₁ h₂ h₃
  · have heq : b = UInt8.ofNat v := by simpa using h
    rw [heq,toNat_ofNat_of_lt (by omega)]
  · simp only [List.mem_cons,List.not_mem_nil,or_false] at h
    rcases h with h | h <;> exact absurd h (hbig _ (by omega) (by omega))
  · simp only [List.mem_cons,List.not_mem_nil,or_false] at h
    rcases h with h | h | h <;> exact absurd h (hbig _ (by omega) (by omega))
  · simp only [List.mem_cons,List.not_mem_nil,or_false] at h
    rcases h with h | h | h | h <;> exact absurd h (hbig _ (by omega) (by omega))

/-- A letter of ASCII occurs in the encoding only where the text has it. -/
theorem mem_of_mem_pathOf {s : Text} {b : UInt8} (hb : b.toNat < 128) (h : b ∈ pathOf s) :
    Char.ofNat b.toNat ∈ s := by
  obtain ⟨c,hc,hbc⟩ := List.mem_flatMap.mp h
  rwa [← toNat_eq_of_mem_encode hb hbc,Char.ofNat_toNat]

/-- A text whose encoding ends in a letter of ASCII ends in that letter. -/
theorem pathOf_eq_append {s : Text} {front : List UInt8} {b : UInt8} (hb : b.toNat < 128)
    (h : pathOf s = front++[b]) : ∃ t, s = t++[Char.ofNat b.toNat] ∧ pathOf t = front := by
  rcases List.eq_nil_or_concat s with rfl | ⟨t,c,rfl⟩
  · simp [pathOf] at h
  · have hsplit : pathOf t++String.utf8EncodeChar c = front++[b] := by
      rw [← h]
      simp [pathOf]
    have hlast : b ∈ String.utf8EncodeChar c := by
      have hb := congrArg List.getLast? hsplit
      rw [List.getLast?_append_of_ne_nil _ String.utf8EncodeChar_ne_nil,List.getLast?_concat] at hb
      exact List.mem_of_getLast? hb
    have hc := toNat_eq_of_mem_encode hb hlast
    have henc : String.utf8EncodeChar c = [UInt8.ofNat c.toNat] := by
      have hle : c.toNat ≤ 127 := by omega
      exact if_pos hle
    rw [henc,hc] at hsplit
    refine ⟨t,?_,(List.append_inj' hsplit rfl).1⟩
    rw [← hc,Char.ofNat_toNat,List.concat_eq_append]

/-- A text ends in ASCII if its encoding does. -/
theorem suffix_of_pathOf {s tail : Text} (ha : ∀ c ∈ tail, c.toNat < 128)
    (h : pathOf tail <:+ pathOf s) : tail <:+ s := by
  induction tail using List.reverseRecOn generalizing s with
  | nil => exact List.nil_suffix
  | append_singleton tail c ih =>
    obtain ⟨front,hfront⟩ := h
    have hc := ha c (by simp)
    have henc : String.utf8EncodeChar c = [UInt8.ofNat c.toNat] := by
      have hle : c.toNat ≤ 127 := by omega
      exact if_pos hle
    have hnat := toNat_ofNat_of_lt (show c.toNat < 256 by omega)
    have hs : pathOf s = front++pathOf tail++[UInt8.ofNat c.toNat] := by
      rw [← hfront,List.append_assoc,← henc]
      simp [pathOf]
    obtain ⟨t,rfl,ht⟩ := pathOf_eq_append (by rwa [hnat]) hs
    obtain ⟨front',rfl⟩ := ih (fun d hd => ha d (by simp [hd])) ⟨front,ht.symm⟩
    exact ⟨front',by rw [hnat,Char.ofNat_toNat,List.append_assoc]⟩

/-! ### Entries of a directory -/

namespace PathBuf

theorem parts_join {dir name : PathBuf} (hn : slash ∉ name) (hne : name ≠ []) (hd : name ≠ [dot]) :
    (dir.join name).parts = dir.parts++[name] := by
  have hsplit : name.splitOn slash = [name] := List.splitOn_eq_singleton hn
  unfold join parts
  split_ifs with h
  · rcases h with rfl | h
    · simp [hsplit,hne,hd]
    · obtain ⟨d,rfl⟩ := List.getLast?_eq_some_iff.mp h
      rw [List.append_assoc,List.singleton_append,List.splitOn_append_cons_self,
        List.splitOn_append_cons_self,hsplit]
      simp [hne,hd]
  · rw [List.splitOn_append_cons_self,hsplit]
    simp [hne,hd]

theorem fileName_join {dir name : PathBuf} (hn : slash ∉ name) (hne : name ≠ []) (hd : name ≠ [dot])
    (hdd : name ≠ [dot,dot]) : (dir.join name).fileName = some name := by
  simp [fileName,parts_join hn hne hd,hdd]

/-- The parent of a resolved directory's entry. -/
theorem parent_join {dir name : PathBuf} (hn : slash ∉ name) (hne : name ≠ []) (hd : name ≠ [dot])
    (hdir : dir = slash::List.intercalate [slash] dir.parts) :
    (dir.join name).parent = some dir := by
  rw [parent,parts_join hn hne hd,if_neg (by simp),List.dropLast_concat,← hdir]

end PathBuf
end Byssus
