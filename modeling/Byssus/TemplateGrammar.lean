import Byssus.Template
import Mathlib.Data.Fintype.Option
import Mathlib.Order.Bounds.Basic

/-! The grammar of templates, stated on the text alone: which braces belong to a
placeholder, and what the components may be.  The parser of the source accepts exactly
these texts and keeps every letter of them. -/
namespace Byssus

/-- A static group's template names the member only; a set's may name the levels too. -/
def MayUse (allowGroup : Bool) (p : Placeholder) : Prop := p.isSome → allowGroup = true

/-- The placeholder stands in the text from the position on. -/
def Occurs (p : Placeholder) (text : Text) (start : ℕ) : Prop :=
  placeholderText p <+: text.drop start

/-- The position lies in an occurrence of a placeholder that may be used. -/
def Covered (allowGroup : Bool) (text : Text) (i : ℕ) : Prop :=
  ∃ p start, MayUse allowGroup p ∧ Occurs p text start ∧ start ≤ i ∧
    i < start+(placeholderText p).length

/-- The positions of the braces that belong to no placeholder. -/
def strayBraces (allowGroup : Bool) (text : Text) : Set ℕ :=
  {i | (∃ c, text[i]? = some c ∧ isBrace c = true) ∧ ¬Covered allowGroup text i}

def BraceFree (text : Text) : Prop := ∀ c ∈ text, isBrace c = false

instance (text : Text) : Decidable (BraceFree text) := inferInstanceAs (Decidable (∀ c ∈ text, _))

theorem braceFree_nil : BraceFree [] := fun _ h => nomatch h

/-- What a component must satisfy beside its braces. -/
structure PlainComponent (component : Text) : Prop where
  slash : '/' ∉ component
  nonempty : component ≠ []
  dot : component ≠ ['.']
  dots : component ≠ ['.','.']
  length : (∀ p, ¬placeholderText p <:+: component) → byteLen component ≤ maxNameLen

/-- The texts that are templates. -/
structure InGrammar (allowGroup : Bool) (raw : Text) : Prop where
  nul : nul ∉ raw
  braces : strayBraces allowGroup raw = ∅
  named : placeholderText none <:+: raw
  components : ∃ components, components ≠ [] ∧ raw = List.intercalate ['/'] components ∧
    ∀ c ∈ components, PlainComponent c

/-! ### The placeholders' texts -/

theorem placeholderText_head (p : Placeholder) : (placeholderText p).head? = some '\x7b' := by
  revert p
  decide

theorem eq_zero_of_placeholderText {p : Placeholder} {k : ℕ}
    (h : (placeholderText p)[k]? = some '\x7b') : k = 0 := by
  have hall : ∀ p : Placeholder, ∀ k < (placeholderText p).length,
      (placeholderText p)[k]? = some '\x7b' → k = 0 := by decide
  exact hall p k (List.getElem?_eq_some_iff.mp h).1 h

theorem last_of_placeholderText {p : Placeholder} {k : ℕ}
    (h : (placeholderText p)[k]? = some '\x7d') : k+1 = (placeholderText p).length := by
  have hall : ∀ p : Placeholder, ∀ k < (placeholderText p).length,
      (placeholderText p)[k]? = some '\x7d' → k+1 = (placeholderText p).length := by decide
  exact hall p k (List.getElem?_eq_some_iff.mp h).1 h

theorem placeholderText_getLast (p : Placeholder) :
    (placeholderText p).getLast? = some '\x7d' := by
  revert p
  decide

theorem slash_notMem_placeholderText (p : Placeholder) : '/' ∉ placeholderText p := by
  revert p
  decide

theorem nul_notMem_placeholderText (p : Placeholder) : nul ∉ placeholderText p := by
  revert p
  decide

/-- No placeholder's text begins with another's. -/
theorem placeholder_unique {p q : Placeholder} {text : Text} (hp : placeholderText p <+: text)
    (hq : placeholderText q <+: text) : p = q := by
  have hall : ∀ p q : Placeholder, (placeholderText p).isPrefixOf (placeholderText q) = true →
      p = q := by decide
  rcases List.prefix_or_prefix_of_prefix hp hq with h | h
  · exact hall p q (by simpa using h)
  · exact (hall q p (by simpa using h)).symm

theorem findPlaceholder_eq_some {tail : Text} {p : Placeholder} :
    findPlaceholder tail = some p ↔ placeholderText p <+: tail := by
  have hmem : ∀ q : Placeholder, q ∈ none::(List.finRange maxSetDepth).map some := by decide
  constructor
  · intro h
    simpa using List.find?_some h
  · intro h
    cases hf : findPlaceholder tail with
    | none =>
      have hno := List.find?_eq_none.mp hf p (hmem p)
      simp [h] at hno
    | some q =>
      have hq : placeholderText q <+: tail := by simpa using List.find?_some hf
      rw [placeholder_unique h hq]

theorem findPlaceholder_eq_none {tail : Text} :
    findPlaceholder tail = none ↔ ∀ p, ¬placeholderText p <+: tail := by
  constructor
  · intro h p hp
    rw [findPlaceholder_eq_some.mpr hp] at h
    cases h
  · intro h
    cases hf : findPlaceholder tail with
    | none => rfl
    | some p => exact absurd (findPlaceholder_eq_some.mp hf) (h p)

theorem findPlaceholder_append (p : Placeholder) (rest : Text) :
    findPlaceholder (placeholderText p++rest) = some p :=
  findPlaceholder_eq_some.mpr (List.prefix_append _ _)

/-! ### Occurrences in a text put together from two -/

theorem Occurs.getElem? {p : Placeholder} {text : Text} {start k : ℕ} (h : Occurs p text start)
    (hk : k < (placeholderText p).length) : text[start+k]? = (placeholderText p)[k]? := by
  obtain ⟨rest,hrest⟩ := h
  rw [← List.getElem?_drop,← hrest,List.getElem?_append_left hk]

theorem occurs_right {p : Placeholder} {a b : Text} {start : ℕ} :
    Occurs p (a++b) (a.length+start) ↔ Occurs p b start := by
  unfold Occurs
  rw [List.drop_length_add_append]

theorem occurs_left {p : Placeholder} {a b : Text} {start : ℕ}
    (h : start+(placeholderText p).length ≤ a.length) :
    Occurs p (a++b) start ↔ Occurs p a start := by
  unfold Occurs
  rw [List.drop_append_of_le_length (by omega)]
  constructor
  · intro hp
    apply List.prefix_of_prefix_length_le hp (List.prefix_append _ _)
    rw [List.length_drop]
    omega
  · intro hp
    exact hp.trans (List.prefix_append _ _)

/-- No placeholder stands partly in the one and partly in the other text. -/
def Border (a b : Text) : Prop :=
  ∀ p start, start < a.length → Occurs p (a++b) start →
    start+(placeholderText p).length ≤ a.length

theorem Occurs.lt_length {p : Placeholder} {text : Text} {start : ℕ} (h : Occurs p text start) :
    start+(placeholderText p).length ≤ text.length := by
  have hle := h.length_le
  have hpos := placeholderText_pos p
  rw [List.length_drop] at hle
  omega

theorem Border.covered_left {allowGroup : Bool} {a b : Text} (h : Border a b) {i : ℕ}
    (hi : i < a.length) : Covered allowGroup (a++b) i ↔ Covered allowGroup a i := by
  constructor
  · rintro ⟨p,start,hp,hocc,hle,hlt⟩
    exact ⟨p,start,hp,(occurs_left (h p start (by omega) hocc)).mp hocc,hle,hlt⟩
  · rintro ⟨p,start,hp,hocc,hle,hlt⟩
    exact ⟨p,start,hp,(occurs_left hocc.lt_length).mpr hocc,hle,hlt⟩

theorem Border.covered_right {allowGroup : Bool} {a b : Text} (h : Border a b) {i : ℕ} :
    Covered allowGroup (a++b) (a.length+i) ↔ Covered allowGroup b i := by
  constructor
  · rintro ⟨p,start,hp,hocc,hle,hlt⟩
    have hstart : a.length ≤ start := by
      by_contra hlt'
      have hend := h p start (by omega) hocc
      omega
    obtain ⟨k,rfl⟩ := Nat.exists_eq_add_of_le hstart
    exact ⟨p,k,hp,occurs_right.mp hocc,by omega,by omega⟩
  · rintro ⟨p,start,hp,hocc,hle,hlt⟩
    exact ⟨p,a.length+start,hp,occurs_right.mpr hocc,by omega,by omega⟩

theorem Border.stray_left {allowGroup : Bool} {a b : Text} (h : Border a b) {i : ℕ}
    (hi : i < a.length) : i ∈ strayBraces allowGroup (a++b) ↔ i ∈ strayBraces allowGroup a := by
  simp only [strayBraces,Set.mem_ofPred_eq,h.covered_left hi,List.getElem?_append_left hi]

theorem Border.stray_right {allowGroup : Bool} {a b : Text} (h : Border a b) {i : ℕ} :
    a.length+i ∈ strayBraces allowGroup (a++b) ↔ i ∈ strayBraces allowGroup b := by
  simp only [strayBraces,Set.mem_ofPred_eq,h.covered_right,List.getElem?_append_right
    (Nat.le_add_right _ _),Nat.add_sub_cancel_left]

theorem stray_lt_length {allowGroup : Bool} {text : Text} {i : ℕ}
    (h : i ∈ strayBraces allowGroup text) : i < text.length := by
  obtain ⟨⟨c,hc,-⟩,-⟩ := h
  exact (List.getElem?_eq_some_iff.mp hc).1

theorem Border.stray_eq_empty {allowGroup : Bool} {a b : Text} (h : Border a b) :
    strayBraces allowGroup (a++b) = ∅ ↔
      strayBraces allowGroup a = ∅ ∧ strayBraces allowGroup b = ∅ := by
  simp only [Set.eq_empty_iff_forall_notMem]
  constructor
  · intro hno
    constructor
    · intro i hi
      exact hno i ((h.stray_left (stray_lt_length hi)).mpr hi)
    · intro i hi
      exact hno _ (h.stray_right.mpr hi)
  · rintro ⟨ha,hb⟩ i hi
    by_cases hlt : i < a.length
    · exact ha i ((h.stray_left hlt).mp hi)
    · obtain ⟨k,rfl⟩ := Nat.exists_eq_add_of_le (Nat.le_of_not_lt hlt)
      exact hb k (h.stray_right.mp hi)

/-- The first stray brace of the left text is the first of both. -/
theorem Border.least_left {allowGroup : Bool} {a b : Text} (h : Border a b) {i : ℕ}
    (hi : IsLeast (strayBraces allowGroup a) i) : IsLeast (strayBraces allowGroup (a++b)) i := by
  have hlt := stray_lt_length hi.1
  refine ⟨(h.stray_left hlt).mpr hi.1,?_⟩
  intro k hk
  by_contra hki
  have hle := hi.2 ((h.stray_left (by omega)).mp hk)
  omega

theorem Border.least_right {allowGroup : Bool} {a b : Text} (h : Border a b) {i : ℕ}
    (ha : strayBraces allowGroup a = ∅) (hi : IsLeast (strayBraces allowGroup b) i) :
    IsLeast (strayBraces allowGroup (a++b)) (a.length+i) := by
  refine ⟨h.stray_right.mpr hi.1,?_⟩
  intro k hk
  have hge : a.length ≤ k := by
    by_contra hlt
    have hmem := (h.stray_left (by omega)).mp hk
    rw [ha] at hmem
    exact hmem
  obtain ⟨j,rfl⟩ := Nat.exists_eq_add_of_le hge
  have hle := hi.2 (h.stray_right.mp hk)
  omega

/-! Where no placeholder can stand across. -/

theorem Border.of_braceFree {a : Text} (ha : BraceFree a) (b : Text) : Border a b := by
  intro p start hlt hocc
  have hfirst := hocc.getElem? (placeholderText_pos p)
  rw [Nat.add_zero,List.getElem?_append_left hlt,← List.head?_eq_getElem?,placeholderText_head]
    at hfirst
  have hno := ha _ (List.mem_of_getElem? hfirst)
  exact absurd hno (by decide)

/-- The letter before the border of two texts is no inner letter of a placeholder. -/
theorem Border.of_getLast {a : Text} {c : Char} (ha : a.getLast? = some c)
    (hc : c = '/' ∨ c = '\x7d') (b : Text) : Border a b := by
  intro p start hlt hocc
  by_contra hlong
  have hlen : a.length-1-start < (placeholderText p).length := by omega
  have hlast := hocc.getElem? hlen
  have hpos : start+(a.length-1-start) = a.length-1 := by omega
  rw [hpos,List.getElem?_append_left (by omega),← List.getLast?_eq_getElem?,ha] at hlast
  rcases hc with rfl | rfl
  · exact slash_notMem_placeholderText p (List.mem_of_getElem? hlast.symm)
  · have hend := last_of_placeholderText hlast.symm
    omega

/-- The letter after the border is a slash. -/
theorem Border.of_slash (a : Text) {b : Text} (hb : ∀ c, b.head? = some c → c = '/') :
    Border a b := by
  intro p start hlt hocc
  by_contra hlong
  have hlen : a.length-start < (placeholderText p).length := by omega
  have hnext := hocc.getElem? hlen
  have hpos : start+(a.length-start) = a.length := by omega
  rw [hpos,List.getElem?_append_right (Nat.le_refl _),Nat.sub_self,← List.head?_eq_getElem?]
    at hnext
  cases hbh : b.head? with
  | none =>
    rw [hbh,eq_comm,List.getElem?_eq_none_iff] at hnext
    omega
  | some c =>
    rw [hbh,hb c hbh] at hnext
    exact slash_notMem_placeholderText p (List.mem_of_getElem? hnext.symm)

theorem Border.of_placeholder (p : Placeholder) (b : Text) : Border (placeholderText p) b :=
  .of_getLast (placeholderText_getLast p) (.inr rfl) b

theorem stray_of_braceFree {allowGroup : Bool} {text : Text} (h : BraceFree text) :
    strayBraces allowGroup text = ∅ := by
  rw [Set.eq_empty_iff_forall_notMem]
  rintro i ⟨⟨c,hc,hbrace⟩,-⟩
  rw [h c (List.mem_of_getElem? hc)] at hbrace
  cases hbrace

theorem stray_placeholder {allowGroup : Bool} {p : Placeholder} (hp : MayUse allowGroup p) :
    strayBraces allowGroup (placeholderText p) = ∅ := by
  rw [Set.eq_empty_iff_forall_notMem]
  intro i hi
  have hlt := stray_lt_length hi
  exact hi.2 ⟨p,0,hp,List.prefix_refl _,Nat.zero_le _,by omega⟩

/-! ### The pieces of a component -/

/-- Pieces as the parser makes them: as few literals as there can be. -/
structure Normal (allowGroup : Bool) (pieces : List Piece) : Prop where
  literals : ∀ text, Piece.literal text ∈ pieces → text ≠ [] ∧ BraceFree text
  separate : pieces.IsChain fun p q => ¬(p.isLiteral = true ∧ q.isLiteral = true)
  levels : ∀ level, Piece.level level ∈ pieces → allowGroup = true

@[simp] theorem normal_nil (allowGroup : Bool) : Normal allowGroup [] :=
  ⟨by simp,List.isChain_nil,by simp⟩

theorem normal_literal {allowGroup : Bool} {text : Text} {pieces : List Piece} :
    Normal allowGroup (.literal text::pieces) ↔ text ≠ [] ∧ BraceFree text ∧
      (∀ p, pieces.head? = some p → p.isLiteral = false) ∧ Normal allowGroup pieces := by
  constructor
  · intro h
    obtain ⟨hne,hfree⟩ := h.literals text (by simp)
    obtain ⟨hhead,hchain⟩ := List.isChain_cons.mp h.separate
    refine ⟨hne,hfree,?_,fun s hs => h.literals s (by simp [hs]),hchain,
      fun l hl => h.levels l (by simp [hl])⟩
    intro p hp
    simpa [Piece.isLiteral] using hhead p hp
  · rintro ⟨hne,hfree,hhead,h⟩
    refine ⟨?_,List.isChain_cons.mpr ⟨?_,h.separate⟩,?_⟩
    · intro s hs
      rcases List.mem_cons.mp hs with heq | hs
      · cases heq
        exact ⟨hne,hfree⟩
      · exact h.literals s hs
    · intro p hp
      simp [hhead p hp]
    · intro level hl
      exact h.levels level (by simpa using hl)

theorem normal_placeholder {allowGroup : Bool} {p : Placeholder} {pieces : List Piece} :
    Normal allowGroup (.ofPlaceholder p::pieces) ↔
      MayUse allowGroup p ∧ Normal allowGroup pieces := by
  have hlit : (Piece.ofPlaceholder p).isLiteral = false := by cases p <;> rfl
  constructor
  · intro h
    refine ⟨?_,fun s hs => h.literals s (by simp [hs]),(List.isChain_cons.mp h.separate).2,
      fun l hl => h.levels l (by simp [hl])⟩
    intro hsome
    obtain ⟨l,rfl⟩ := Option.isSome_iff_exists.mp hsome
    exact h.levels l (by simp [Piece.ofPlaceholder])
  · rintro ⟨hp,h⟩
    refine ⟨?_,List.isChain_cons.mpr ⟨?_,h.separate⟩,?_⟩
    · intro s hs
      rcases List.mem_cons.mp hs with heq | hs
      · exact absurd heq.symm Piece.ofPlaceholder_ne_literal
      · exact h.literals s hs
    · intro q _
      simp [hlit]
    · intro level hl
      rcases List.mem_cons.mp hl with heq | hl
      · exact hp (by rw [Piece.ofPlaceholder_eq_level.mp heq.symm]; rfl)
      · exact h.levels level hl

@[simp] theorem textOf_ofPlaceholder (σ : Placeholder → Text) (p : Placeholder)
    (pieces : List Piece) :
    textOf σ (.ofPlaceholder p::pieces) = σ p++textOf σ pieces := by
  cases p <;> rfl

/-- Pieces one at a time: a literal or a placeholder. -/
theorem pieces_induction {P : List Piece → Prop} (nil : P [])
    (literal : ∀ text pieces, P pieces → P (.literal text::pieces))
    (placeholder : ∀ p pieces, P pieces → P (.ofPlaceholder p::pieces)) (pieces : List Piece) :
    P pieces := by
  induction pieces with
  | nil => exact nil
  | cons p pieces ih =>
    cases p with
    | literal text => exact literal text pieces ih
    | name => exact placeholder none pieces ih
    | level l => exact placeholder (some l) pieces ih

/-- Every brace of the pieces' text belongs to one of their placeholders. -/
theorem Normal.stray_eq_empty {allowGroup : Bool} {pieces : List Piece}
    (h : Normal allowGroup pieces) :
    strayBraces allowGroup (textOf placeholderText pieces) = ∅ := by
  induction pieces using pieces_induction with
  | nil => exact stray_of_braceFree (by simp [BraceFree])
  | literal text pieces ih =>
    obtain ⟨-,hfree,-,hrest⟩ := normal_literal.mp h
    rw [textOf_literal,(Border.of_braceFree hfree _).stray_eq_empty]
    exact ⟨stray_of_braceFree hfree,ih hrest⟩
  | placeholder p pieces ih =>
    obtain ⟨hp,hrest⟩ := normal_placeholder.mp h
    rw [textOf_ofPlaceholder,(Border.of_placeholder p _).stray_eq_empty]
    exact ⟨stray_placeholder hp,ih hrest⟩

/-! ### The parser of a component -/

/-- A component up to its first brace: there is none, or a placeholder begins with it, or not. -/
theorem component_induction {P : Text → Prop} (free : ∀ text, BraceFree text → P text)
    (stray : ∀ literal c rest, BraceFree literal → isBrace c = true →
      findPlaceholder (c::rest) = none → P (literal++c::rest))
    (placeholder : ∀ literal p rest, BraceFree literal → P rest →
      P (literal++(placeholderText p++rest))) (text : Text) : P text := by
  induction hn : text.length using Nat.strong_induction_on generalizing text with
  | _ n ih =>
  cases hpos : text.findIdx? isBrace with
  | none => exact free text (by simpa [BraceFree] using hpos)
  | some pos =>
    obtain ⟨hlt,hbrace,hbefore⟩ := List.findIdx?_eq_some_iff_getElem.mp hpos
    have hfree : BraceFree (text.take pos) := by
      intro c hc
      obtain ⟨k,hk,rfl⟩ := List.getElem_of_mem hc
      rw [List.getElem_take]
      simpa using hbefore k (by simp at hk; omega)
    have hsplit : text = text.take pos++text[pos]::text.drop (pos+1) := by
      rw [← List.drop_eq_getElem_cons hlt,List.take_append_drop]
    cases hp : findPlaceholder (text[pos]::text.drop (pos+1)) with
    | none =>
      rw [hsplit]
      exact stray _ _ _ hfree hbrace hp
    | some p =>
      obtain ⟨rest,hrest⟩ := findPlaceholder_eq_some.mp hp
      rw [← hrest] at hsplit
      have hlen := congrArg List.length hsplit
      have hppos := placeholderText_pos p
      rw [List.length_append,List.length_append] at hlen
      rw [hsplit]
      exact placeholder _ p rest hfree (ih rest.length (by omega) rest rfl)

theorem findIdx?_braceFree {literal : Text} {c : Char} (rest : Text) (hl : BraceFree literal)
    (hc : isBrace c = true) : (literal++c::rest).findIdx? isBrace = some literal.length := by
  rw [List.findIdx?_eq_some_iff_getElem]
  refine ⟨by simp,by simpa using hc,?_⟩
  intro k hk
  rw [List.getElem_append_left hk]
  simpa using hl _ (List.getElem_mem hk)

theorem parseComponent_free {allowGroup : Bool} {text : Text} (h : BraceFree text) (offset : ℕ) :
    parseComponent allowGroup text offset = .ok (literalPiece text) := by
  have hno : text.findIdx? isBrace = none := by simpa [BraceFree] using h
  rw [parseComponent]
  split
  · rfl
  · rename_i pos hpos
    rw [hno] at hpos
    cases hpos

theorem parseComponent_stray {allowGroup : Bool} {literal : Text} {c : Char} {rest : Text}
    (hl : BraceFree literal) (hc : isBrace c = true) (hf : findPlaceholder (c::rest) = none)
    (offset : ℕ) : parseComponent allowGroup (literal++c::rest) offset =
      .error (.invalidBrace (foundBrace (c::rest)) (offset+byteLen literal)) := by
  have hsome := findIdx?_braceFree rest hl hc
  rw [parseComponent]
  split
  · rename_i hpos
    rw [hsome] at hpos
    cases hpos
  · rename_i pos hpos
    rw [hsome] at hpos
    cases hpos
    simp [hf]

theorem parseComponent_placeholder {allowGroup : Bool} {literal : Text} (hl : BraceFree literal)
    (p : Placeholder) (rest : Text) (offset : ℕ) :
    parseComponent allowGroup (literal++(placeholderText p++rest)) offset =
      if p.isSome && !allowGroup then .error .groupNotAllowed
      else match parseComponent allowGroup rest
          (offset+byteLen literal+byteLen (placeholderText p)) with
        | .error e => .error e
        | .ok pieces => .ok (literalPiece literal++Piece.ofPlaceholder p::pieces) := by
  obtain ⟨body,hbody⟩ : ∃ body, placeholderText p = '\x7b'::body :=
    List.head?_eq_some_iff.mp (placeholderText_head p)
  have hsome : (literal++(placeholderText p++rest)).findIdx? isBrace = some literal.length := by
    rw [hbody]
    exact findIdx?_braceFree _ hl (by decide)
  rw [parseComponent]
  split
  · rename_i hpos
    rw [hsome] at hpos
    cases hpos
  · rename_i pos hpos
    rw [hsome] at hpos
    cases hpos
    cases hr : parseComponent allowGroup rest
      (offset+byteLen literal+byteLen (placeholderText p)) with
    | error e => simp only [List.take_left,List.drop_left,findPlaceholder_append,hr]
    | ok pieces => simp only [List.take_left,List.drop_left,findPlaceholder_append,hr]

/-- The parser returns exactly the pieces that the text is made of. -/
theorem parseComponent_of_normal {allowGroup : Bool} {pieces : List Piece}
    (h : Normal allowGroup pieces) (offset : ℕ) :
    parseComponent allowGroup (textOf placeholderText pieces) offset = .ok pieces := by
  -- A literal is only returned where the next placeholder, or the end, is met.
  have hfrom : ∀ literal offset, BraceFree literal →
      (literal ≠ [] → ∀ p, pieces.head? = some p → p.isLiteral = false) →
      parseComponent allowGroup (literal++textOf placeholderText pieces) offset =
        .ok (literalPiece literal++pieces) := by
    induction pieces using pieces_induction with
    | nil =>
      intro literal offset hl _
      simpa using parseComponent_free hl offset
    | literal text pieces ih =>
      intro literal offset _ hsep
      obtain ⟨hne,hfree,hhead,hrest⟩ := normal_literal.mp h
      have hnil : literal = [] := by
        by_contra hne'
        have hlit := hsep hne' (.literal text) rfl
        cases hlit
      subst hnil
      rw [List.nil_append,textOf_literal,ih hrest text offset hfree fun _ => hhead]
      simp [literalPiece,hne]
    | placeholder p pieces ih =>
      intro literal offset hl _
      obtain ⟨hp,hrest⟩ := normal_placeholder.mp h
      have hallow : (p.isSome && !allowGroup) = false := by
        cases hsome : p.isSome with
        | false => rfl
        | true => simp [hp hsome]
      have hnext := ih hrest [] (offset+byteLen literal+byteLen (placeholderText p))
        (by simp [BraceFree]) (by simp)
      rw [List.nil_append] at hnext
      rw [textOf_ofPlaceholder,parseComponent_placeholder hl,hnext,hallow]
      simp [literalPiece]
  simpa [literalPiece] using hfrom [] offset (by simp [BraceFree]) (by simp)

theorem normal_literalPiece {allowGroup : Bool} {literal : Text} {pieces : List Piece}
    (hl : BraceFree literal) (hhead : ∀ p, pieces.head? = some p → p.isLiteral = false)
    (h : Normal allowGroup pieces) : Normal allowGroup (literalPiece literal++pieces) := by
  unfold literalPiece
  split
  · exact h
  · rename_i hne
    exact normal_literal.mpr ⟨hne,hl,hhead,h⟩

/-- What the parser of a component returns. -/
inductive ParsedComponent (allowGroup : Bool) (text : Text) (offset : ℕ) :
    Except TemplateError (List Piece) → Prop
  | pieces {pieces : List Piece} : Normal allowGroup pieces →
      textOf placeholderText pieces = text → ParsedComponent allowGroup text offset (.ok pieces)
  | brace {found : Text} {i : ℕ} : IsLeast (strayBraces allowGroup text) i →
      found <+: text.drop i →
      ParsedComponent allowGroup text offset
        (.error (.invalidBrace found (offset+byteLen (text.take i))))
  | group : strayBraces allowGroup text ≠ ∅ →
      ParsedComponent allowGroup text offset (.error .groupNotAllowed)

theorem foundBrace_prefix {c : Char} (hc : isBrace c = true) (rest : Text) :
    foundBrace (c::rest) <+: c::rest := by
  have hbrace : c = '\x7b' ∨ c = '\x7d' := by simpa [isBrace] using hc
  unfold foundBrace
  rcases hbrace with rfl | rfl
  · rw [List.head?_cons,if_pos rfl]
    split
    · exact List.take_prefix _ _
    · simp
  · simp

/-- A brace with no placeholder at it, and none before it, is stray. -/
theorem stray_least {allowGroup : Bool} {c : Char} (rest : Text) (hc : isBrace c = true)
    (hf : ∀ p, MayUse allowGroup p → ¬placeholderText p <+: c::rest) :
    IsLeast (strayBraces allowGroup (c::rest)) 0 := by
  refine ⟨⟨⟨c,rfl,hc⟩,?_⟩,fun _ _ => Nat.zero_le _⟩
  rintro ⟨p,start,hp,hocc,hle,-⟩
  obtain rfl : start = 0 := by omega
  exact hf p hp hocc

theorem parsedComponent (allowGroup : Bool) (text : Text) (offset : ℕ) :
    ParsedComponent allowGroup text offset (parseComponent allowGroup text offset) := by
  induction text using component_induction generalizing offset with
  | free text h =>
    rw [parseComponent_free h]
    refine .pieces ?_ (textOf_literalPiece _ _)
    simpa using normal_literalPiece h (by simp) (normal_nil allowGroup)
  | stray literal c rest hl hc hf =>
    have hleast := stray_least rest hc fun p (_ : MayUse allowGroup p) =>
      findPlaceholder_eq_none.mp hf p
    have hfound := foundBrace_prefix hc rest
    have h := (Border.of_braceFree hl (c::rest)).least_right (stray_of_braceFree hl) hleast
    rw [parseComponent_stray hl hc hf]
    have herr := @ParsedComponent.brace _ _ offset (foundBrace (c::rest)) _ h
      (by simpa using hfound)
    simpa using herr
  | placeholder literal p rest hl ih =>
    rw [parseComponent_placeholder hl]
    have hsplit := Border.of_braceFree hl (placeholderText p++rest)
    have hafter := Border.of_placeholder p rest
    by_cases hp : MayUse allowGroup p
    · have hallow : (p.isSome && !allowGroup) = false := by
        cases hsome : p.isSome with
        | false => rfl
        | true => simp [hp hsome]
      rw [hallow]
      generalize hres : parseComponent allowGroup rest
        (offset+byteLen literal+byteLen (placeholderText p)) = result
      have hih := ih (offset+byteLen literal+byteLen (placeholderText p))
      rw [hres] at hih
      cases hih with
      | pieces hn htext =>
        refine .pieces (normal_literalPiece hl ?_ (normal_placeholder.mpr ⟨hp,hn⟩)) ?_
        · intro q hq
          cases hq
          cases p <;> rfl
        · rw [textOf_append,textOf_literalPiece,textOf_ofPlaceholder,htext]
      | brace hleast hfound =>
        rename_i found i
        have h := hsplit.least_right (stray_of_braceFree hl)
          (hafter.least_right (stray_placeholder hp) hleast)
        have herr := @ParsedComponent.brace _ _ offset found _ h
          (by simpa [List.drop_length_add_append] using hfound)
        simpa [List.take_length_add_append,Nat.add_assoc] using herr
      | group hstray =>
        refine .group ?_
        rw [ne_eq,hsplit.stray_eq_empty,hafter.stray_eq_empty]
        exact fun hno => hstray hno.2.2
    · have hnot : p.isSome = true ∧ allowGroup = false := by
        simpa [MayUse] using hp
      have hstop : (p.isSome && !allowGroup) = true := by simp [hnot]
      rw [if_pos hstop]
      refine .group ?_
      rw [ne_eq,hsplit.stray_eq_empty]
      rintro ⟨-,hno⟩
      obtain ⟨body,hbody⟩ : ∃ body, placeholderText p = '\x7b'::body :=
        List.head?_eq_some_iff.mp (placeholderText_head p)
      have hpre : placeholderText p <+: '\x7b'::(body++rest) := by
        rw [hbody]
        exact List.prefix_append _ _
      have hleast : IsLeast (strayBraces allowGroup ('\x7b'::(body++rest))) 0 :=
        stray_least _ (by decide) fun q hq hqp => hp (placeholder_unique hpre hqp ▸ hq)
      rw [hbody,List.cons_append] at hno
      rw [hno] at hleast
      exact hleast.1

theorem parseComponent_ok_iff {allowGroup : Bool} {text : Text} {offset : ℕ}
    {pieces : List Piece} : parseComponent allowGroup text offset = .ok pieces ↔
      Normal allowGroup pieces ∧ textOf placeholderText pieces = text := by
  constructor
  · intro h
    have hp := parsedComponent allowGroup text offset
    rw [h] at hp
    cases hp with
    | pieces hn htext => exact ⟨hn,htext⟩
  · rintro ⟨hn,rfl⟩
    exact parseComponent_of_normal hn offset

/-- Where every brace belongs to a placeholder, the component has pieces. -/
theorem exists_pieces {allowGroup : Bool} {text : Text}
    (h : strayBraces allowGroup text = ∅) :
    ∃ pieces, Normal allowGroup pieces ∧ textOf placeholderText pieces = text := by
  have hp := parsedComponent allowGroup text 0
  generalize parseComponent allowGroup text 0 = result at hp
  cases hp with
  | pieces hn htext => exact ⟨_,hn,htext⟩
  | brace hleast _ =>
    rw [h] at hleast
    exact absurd hleast.1 (Set.notMem_empty _)
  | group hne => exact absurd h hne

/-! ### Placeholders contained in a text -/

theorem infix_iff_occurs {p : Placeholder} {text : Text} :
    placeholderText p <:+: text ↔ ∃ start, Occurs p text start := by
  constructor
  · rintro ⟨before,after,rfl⟩
    refine ⟨before.length,after,?_⟩
    simp
  · rintro ⟨start,hpre⟩
    exact hpre.isInfix.trans (List.drop_suffix _ _).isInfix

theorem Border.infix_append {p : Placeholder} {a b : Text} (h : Border a b) :
    placeholderText p <:+: a++b ↔ placeholderText p <:+: a ∨ placeholderText p <:+: b := by
  simp only [infix_iff_occurs]
  constructor
  · rintro ⟨start,hocc⟩
    by_cases hlt : start < a.length
    · exact .inl ⟨start,(occurs_left (h p start hlt hocc)).mp hocc⟩
    · obtain ⟨k,rfl⟩ := Nat.exists_eq_add_of_le (Nat.le_of_not_lt hlt)
      exact .inr ⟨k,occurs_right.mp hocc⟩
  · rintro (⟨start,hocc⟩ | ⟨start,hocc⟩)
    · exact ⟨start,(occurs_left hocc.lt_length).mpr hocc⟩
    · exact ⟨_,occurs_right.mpr hocc⟩

theorem not_infix_of_braceFree {p : Placeholder} {text : Text} (h : BraceFree text) :
    ¬placeholderText p <:+: text := by
  intro hin
  have hmem : '\x7b' ∈ placeholderText p := List.mem_of_head? (placeholderText_head p)
  have hno := h _ (hin.subset hmem)
  exact absurd hno (by decide)

theorem infix_placeholder {p q : Placeholder} (h : placeholderText p <:+: placeholderText q) :
    p = q := by
  obtain ⟨start,hocc⟩ := infix_iff_occurs.mp h
  have hfirst := hocc.getElem? (placeholderText_pos p)
  rw [← List.head?_eq_getElem?,placeholderText_head,Nat.add_zero] at hfirst
  obtain rfl := eq_zero_of_placeholderText hfirst
  exact placeholder_unique hocc (List.prefix_refl _)

/-- A component contains the placeholders among its pieces. -/
theorem Normal.infix_iff {allowGroup : Bool} {pieces : List Piece} (h : Normal allowGroup pieces)
    {p : Placeholder} : placeholderText p <:+: textOf placeholderText pieces ↔
      Piece.ofPlaceholder p ∈ pieces := by
  induction pieces using pieces_induction with
  | nil => simpa using not_infix_of_braceFree braceFree_nil
  | literal text pieces ih =>
    obtain ⟨-,hfree,-,hrest⟩ := normal_literal.mp h
    rw [textOf_literal,(Border.of_braceFree hfree _).infix_append,ih hrest]
    simp [not_infix_of_braceFree hfree]
  | placeholder q pieces ih =>
    obtain ⟨-,hrest⟩ := normal_placeholder.mp h
    have hown : placeholderText p <:+: placeholderText q ↔
        Piece.ofPlaceholder p = Piece.ofPlaceholder q := by
      constructor
      · intro hin
        rw [infix_placeholder hin]
      · intro heq
        cases p <;> cases q <;> simp_all [Piece.ofPlaceholder]
    rw [textOf_ofPlaceholder,(Border.of_placeholder q _).infix_append,ih hrest,hown,List.mem_cons]

theorem Normal.all_literal_iff {allowGroup : Bool} {pieces : List Piece}
    (h : Normal allowGroup pieces) : pieces.all Piece.isLiteral = true ↔
      ∀ p, ¬placeholderText p <:+: textOf placeholderText pieces := by
  simp only [h.infix_iff,List.all_eq_true]
  constructor
  · intro hall p hp
    have hlit := hall _ hp
    cases p <;> cases hlit
  · intro hno q hq
    cases q with
    | literal text => rfl
    | name => exact absurd hq (hno none)
    | level l => exact absurd hq (hno (some l))

/-! ### Components joined by slashes -/

theorem intercalate_cons_ne_nil (c : Text) {cs : List Text} (h : cs ≠ []) :
    List.intercalate ['/'] (c::cs) = c++(['/']++List.intercalate ['/'] cs) := by
  obtain ⟨d,ds,rfl⟩ := List.exists_cons_of_ne_nil h
  simp [List.intercalate_cons_cons]

theorem apart_slash (c : Text) (rest : Text) :
    Border c (['/']++rest) ∧ Border ['/'] rest :=
  ⟨.of_slash c (by simp),.of_getLast (c := '/') rfl (.inl rfl) rest⟩

theorem stray_slash (allowGroup : Bool) : strayBraces allowGroup ['/'] = ∅ :=
  stray_of_braceFree (by decide)

theorem stray_intercalate {allowGroup : Bool} {cs : List Text} :
    strayBraces allowGroup (List.intercalate ['/'] cs) = ∅ ↔
      ∀ c ∈ cs, strayBraces allowGroup c = ∅ := by
  induction cs with
  | nil => simpa using stray_of_braceFree braceFree_nil
  | cons c cs ih =>
    by_cases hcs : cs = []
    · subst hcs
      simp
    · obtain ⟨h₁,h₂⟩ := apart_slash c (List.intercalate ['/'] cs)
      rw [intercalate_cons_ne_nil c hcs,h₁.stray_eq_empty,h₂.stray_eq_empty,ih]
      simp [stray_slash]

theorem infix_intercalate {p : Placeholder} {cs : List Text} :
    placeholderText p <:+: List.intercalate ['/'] cs ↔ ∃ c ∈ cs, placeholderText p <:+: c := by
  induction cs with
  | nil => simpa using not_infix_of_braceFree braceFree_nil
  | cons c cs ih =>
    by_cases hcs : cs = []
    · subst hcs
      simp
    · obtain ⟨h₁,h₂⟩ := apart_slash c (List.intercalate ['/'] cs)
      have hslash : ¬placeholderText p <:+: ['/'] := not_infix_of_braceFree (by decide)
      rw [intercalate_cons_ne_nil c hcs,h₁.infix_append,h₂.infix_append,ih]
      simp [hslash]

theorem parseComponents_ok_iff {allowGroup : Bool} {comps : List Text} {offset : ℕ}
    {parsed : List (List Piece)} (hslash : ∀ c ∈ comps, '/' ∉ c) :
    parseComponents allowGroup comps offset = .ok parsed ↔
      parsed.map (textOf placeholderText) = comps ∧
      ∀ pieces ∈ parsed, Normal allowGroup pieces ∧
        PlainComponent (textOf placeholderText pieces) := by
  induction comps generalizing offset parsed with
  | nil =>
    simp only [parseComponents,Except.ok.injEq,List.map_eq_nil_iff]
    constructor
    · rintro rfl
      simp
    · intro h
      exact h.1.symm
  | cons c comps ih =>
    have hrest := fun offset parsed => @ih offset parsed
      fun d hd => hslash d (by simp [hd])
    constructor
    · intro h
      unfold parseComponents at h
      split_ifs at h with h₁ h₂
      cases hc : parseComponent allowGroup c offset with
      | error e => simp [hc] at h
      | ok pieces =>
        simp only [hc] at h
        split_ifs at h with h₃
        obtain ⟨hn,rfl⟩ := parseComponent_ok_iff.mp hc
        cases hr : parseComponents allowGroup comps
            (offset+byteLen (textOf placeholderText pieces)+1) with
        | error e => simp [hr] at h
        | ok ps =>
          simp only [hr,Except.ok.injEq] at h
          subst h
          obtain ⟨hmap,hall⟩ := (hrest _ ps).mp hr
          have hplain : PlainComponent (textOf placeholderText pieces) := {
            slash := hslash _ (by simp)
            nonempty := h₁
            dot := fun hd => h₂ (.inl hd)
            dots := fun hd => h₂ (.inr hd)
            length := fun hno => by
              have hlit := hn.all_literal_iff.mpr hno
              by_contra hlong
              exact h₃ ⟨hlit,by omega⟩ }
          exact ⟨by simp [hmap],List.forall_mem_cons.mpr ⟨⟨hn,hplain⟩,hall⟩⟩
    · rintro ⟨hmap,hall⟩
      obtain ⟨pieces,ps,rfl,rfl,hps⟩ := List.map_eq_cons_iff.mp hmap
      obtain ⟨⟨hn,hplain⟩,hall⟩ := List.forall_mem_cons.mp hall
      have hdot : ¬(textOf placeholderText pieces = ['.'] ∨
          textOf placeholderText pieces = ['.','.']) := not_or.mpr ⟨hplain.dot,hplain.dots⟩
      have hshort : ¬(pieces.all Piece.isLiteral = true ∧
          byteLen (textOf placeholderText pieces) > maxNameLen) := by
        rintro ⟨hlit,hlong⟩
        have hle := hplain.length (hn.all_literal_iff.mp hlit)
        omega
      unfold parseComponents
      simp only [if_neg hplain.nonempty,if_neg hdot,parseComponent_of_normal hn,if_neg hshort,
        (hrest _ ps).mpr ⟨hps,hall⟩]

/-- The first stray brace is reported with its position in the whole text. -/
theorem parseComponents_brace {allowGroup : Bool} {comps : List Text} {offset : ℕ}
    {found : Text} {position : ℕ}
    (h : parseComponents allowGroup comps offset = .error (.invalidBrace found position)) :
    ∃ i, position = offset+byteLen ((List.intercalate ['/'] comps).take i) ∧
      found <+: (List.intercalate ['/'] comps).drop i ∧
      IsLeast (strayBraces allowGroup (List.intercalate ['/'] comps)) i := by
  induction comps generalizing offset with
  | nil => cases h
  | cons c comps ih =>
    unfold parseComponents at h
    split_ifs at h with h₁ h₂
    · cases h
    · cases h
    have hp := parsedComponent allowGroup c offset
    generalize parseComponent allowGroup c offset = result at h hp
    cases hp with
    | group _ => cases h
    | brace hleast hfound =>
      rename_i i
      cases h
      have hlt := stray_lt_length hleast.1
      by_cases hcs : comps = []
      · subst hcs
        exact ⟨i,by simp,by simpa using hfound,by simpa using hleast⟩
      · obtain ⟨hapart,-⟩ := apart_slash c (List.intercalate ['/'] comps)
        rw [intercalate_cons_ne_nil c hcs]
        refine ⟨i,?_,?_,hapart.least_left hleast⟩
        · rw [List.take_append_of_le_length (by omega)]
        · rw [List.drop_append_of_le_length (by omega)]
          exact hfound.trans (List.prefix_append _ _)
    | pieces hn htext =>
      rename_i pieces
      simp only at h
      split_ifs at h
      · cases h
      cases hr : parseComponents allowGroup comps (offset+byteLen c+1) with
      | ok ps => simp [hr] at h
      | error e =>
        simp only [hr,Except.error.injEq] at h
        subst h
        obtain ⟨i,hpos,hfound,hleast⟩ := ih hr
        have hcs : comps ≠ [] := by
          rintro rfl
          cases hr
        have hfree : strayBraces allowGroup c = ∅ := htext ▸ hn.stray_eq_empty
        obtain ⟨h₁,h₂⟩ := apart_slash c (List.intercalate ['/'] comps)
        have hall := h₁.least_right hfree (h₂.least_right (stray_slash allowGroup) hleast)
        have hslash : '/'.utf8Size = 1 := by decide
        refine ⟨c.length+(['/'].length+i),?_,?_,?_⟩
        · rw [intercalate_cons_ne_nil c hcs,List.take_length_add_append,
            List.take_length_add_append,hpos]
          simp [hslash]
          omega
        · rw [intercalate_cons_ne_nil c hcs,List.drop_length_add_append,
            List.drop_length_add_append]
          exact hfound
        · rw [intercalate_cons_ne_nil c hcs]
          exact hall

/-! ### The parser of templates -/
namespace Template

/-- What is accepted is the text whose components are the pieces' texts. -/
theorem parseInner_ok_iff {raw : Text} {allowGroup : Bool} {t : Template} :
    parseInner raw allowGroup = .ok t ↔ t.raw = raw ∧ nul ∉ raw ∧
      raw.splitOn '/' = t.components.map (textOf placeholderText) ∧
      ∀ pieces ∈ t.components, Normal allowGroup pieces ∧
        PlainComponent (textOf placeholderText pieces) := by
  have hslash : ∀ c ∈ raw.splitOn '/', '/' ∉ c := fun c hc => Lists.notMem_of_mem_splitOn hc
  constructor
  · intro h
    unfold parseInner at h
    split_ifs at h with h₁ hn
    split at h
    · cases h
    · rename_i components hc
      split_ifs at h
      cases h
      obtain ⟨hmap,hall⟩ := (parseComponents_ok_iff hslash).mp hc
      exact ⟨rfl,by simpa using hn,hmap.symm,hall⟩
  · rintro ⟨rfl,hn,hsplit,hall⟩
    have hne : ∀ c ∈ t.raw.splitOn '/', c ≠ [] := by
      intro c hc
      rw [hsplit] at hc
      obtain ⟨pieces,hp,rfl⟩ := List.mem_map.mp hc
      exact (hall pieces hp).2.nonempty
    have hraw : t.raw = List.intercalate ['/'] (t.raw.splitOn '/') :=
      (List.intercalate_splitOn '/').symm
    have hempty : t.raw ≠ [] := by
      intro h
      rw [h] at hne
      exact hne [] (by simp) rfl
    have hhead : t.raw.head? ≠ some '/' := by
      intro h
      obtain ⟨rest,hrest⟩ := List.head?_eq_some_iff.mp h
      rw [hrest] at hne
      exact hne [] (by simp [List.splitOn_cons_eq_if_modifyHead]) rfl
    have hlast : t.raw.getLast? ≠ some '/' := by
      intro h
      rw [hraw] at h
      obtain ⟨c,hc,hmem⟩ := Lists.getLast?_intercalate hne h
      exact hslash c hc hmem
    have hparse := (@parseComponents_ok_iff _ _ 0 _ hslash).mpr ⟨hsplit.symm,hall⟩
    unfold parseInner
    rw [if_neg hempty,dif_neg (by simpa using hn),if_neg hhead,if_neg hlast]
    split
    · rename_i e he
      rw [hparse] at he
      cases he
    · rename_i components hc
      rw [hparse,Except.ok.injEq] at hc
      subst hc
      rw [dif_pos t.named]

/-- What a parser must do to follow the grammar: accept its texts only, lose nothing of
them, and report the first brace that belongs to no placeholder. -/
structure Follows (allowGroup : Bool) (raw : Text) (result : Except TemplateError Template) :
    Prop where
  accepts : (∃ t, result = .ok t) ↔ InGrammar allowGroup raw
  lossless : ∀ t, result = .ok t →
    List.intercalate ['/'] (t.components.map (textOf placeholderText)) = raw ∧
    ∀ pieces ∈ t.components, Piece.literal [] ∉ pieces ∧
      pieces.IsChain fun p q => ¬(p.isLiteral = true ∧ q.isLiteral = true)
  brace : ∀ found offset, result = .error (.invalidBrace found offset) →
    ∃ i, byteLen (raw.take i) = offset ∧ found <+: raw.drop i ∧
      IsLeast (strayBraces allowGroup raw) i

theorem exists_template {allowGroup : Bool} {raw : Text} (h : InGrammar allowGroup raw) :
    ∃ t, parseInner raw allowGroup = .ok t := by
  obtain ⟨comps,hne,hraw,hplain⟩ := h.components
  have hstray : ∀ c ∈ comps, strayBraces allowGroup c = ∅ := by
    rw [← stray_intercalate,← hraw]
    exact h.braces
  have hparts : ∃ parsed : List (List Piece), parsed.map (textOf placeholderText) = comps ∧
      ∀ pieces ∈ parsed, Normal allowGroup pieces := by
    clear hraw hplain hne
    induction comps with
    | nil => exact ⟨[],rfl,by simp⟩
    | cons c comps ih =>
      obtain ⟨pieces,hn,rfl⟩ := exists_pieces (hstray c (by simp))
      obtain ⟨parsed,rfl,hall⟩ := ih fun d hd => hstray d (by simp [hd])
      exact ⟨pieces::parsed,rfl,List.forall_mem_cons.mpr ⟨hn,hall⟩⟩
  obtain ⟨parsed,rfl,hnormal⟩ := hparts
  have hsplit : raw.splitOn '/' = parsed.map (textOf placeholderText) := by
    rw [hraw]
    exact List.splitOn_intercalate '/' (fun c hc => (hplain c hc).slash) hne
  have hall : ∀ pieces ∈ parsed, Normal allowGroup pieces ∧
      PlainComponent (textOf placeholderText pieces) := fun pieces hp =>
    ⟨hnormal pieces hp,hplain _ (List.mem_map_of_mem hp)⟩
  have hparse : parseComponents allowGroup (raw.splitOn '/') 0 = .ok parsed :=
    (parseComponents_ok_iff fun c hc => Lists.notMem_of_mem_splitOn hc).mpr ⟨hsplit.symm,hall⟩
  have hnamed : ∃ pieces ∈ parsed, Piece.name ∈ pieces := by
    have hin := h.named
    rw [hraw,infix_intercalate] at hin
    obtain ⟨c,hc,hin⟩ := hin
    obtain ⟨pieces,hp,rfl⟩ := List.mem_map.mp hc
    exact ⟨pieces,hp,(hnormal pieces hp).infix_iff.mp hin⟩
  have hletters : ∀ c ∈ raw.splitOn '/', '/' ∉ c ∧ nul ∉ c := fun c hc =>
    ⟨Lists.notMem_of_mem_splitOn hc,fun h0 => h.nul (Lists.mem_of_mem_splitOn hc h0)⟩
  exact ⟨⟨raw,parsed,parseComponents_valid hletters hparse,hnamed⟩,
    parseInner_ok_iff.mpr ⟨rfl,h.nul,hsplit,hall⟩⟩

theorem inGrammar_of_parseInner {allowGroup : Bool} {raw : Text} {t : Template}
    (h : parseInner raw allowGroup = .ok t) : InGrammar allowGroup raw := by
  obtain ⟨-,hn,hsplit,hall⟩ := parseInner_ok_iff.mp h
  have hraw : raw = List.intercalate ['/'] (t.components.map (textOf placeholderText)) := by
    rw [← hsplit]
    exact (List.intercalate_splitOn '/').symm
  refine ⟨hn,?_,?_,t.components.map (textOf placeholderText),?_,hraw,?_⟩
  · rw [hraw,stray_intercalate]
    intro c hc
    obtain ⟨pieces,hp,rfl⟩ := List.mem_map.mp hc
    exact (hall pieces hp).1.stray_eq_empty
  · obtain ⟨pieces,hp,hname⟩ := t.named
    rw [hraw,infix_intercalate]
    exact ⟨_,List.mem_map_of_mem hp,(hall pieces hp).1.infix_iff.mpr hname⟩
  · rw [← hsplit]
    exact List.splitOn_ne_nil _ _
  · intro c hc
    obtain ⟨pieces,hp,rfl⟩ := List.mem_map.mp hc
    exact (hall pieces hp).2

theorem parseInner_follows (allowGroup : Bool) (raw : Text) :
    Follows allowGroup raw (parseInner raw allowGroup) where
  accepts := by
    constructor
    · rintro ⟨t,ht⟩
      exact inGrammar_of_parseInner ht
    · exact exists_template
  lossless := by
    intro t ht
    obtain ⟨-,-,hsplit,hall⟩ := parseInner_ok_iff.mp ht
    refine ⟨?_,fun pieces hp => ⟨fun hmem => ?_,(hall pieces hp).1.separate⟩⟩
    · rw [← hsplit]
      exact List.intercalate_splitOn '/'
    · exact ((hall pieces hp).1.literals [] hmem).1 rfl
  brace := by
    intro found offset h
    unfold parseInner at h
    split_ifs at h
    · cases h
    · cases h
    · cases h
    · cases h
    split at h
    · rename_i e he
      cases h
      obtain ⟨i,hpos,hfound,hleast⟩ := parseComponents_brace he
      rw [List.intercalate_splitOn] at hpos hfound hleast
      exact ⟨i,by omega,hfound,hleast⟩
    · split_ifs at h
      cases h

/-- Both parsers follow their grammars. -/
theorem parse_follows_grammar (raw : Text) :
    Follows false raw (parse raw) ∧ Follows true raw (parseForSet raw) :=
  ⟨parseInner_follows false raw,parseInner_follows true raw⟩

end Template

example : Template.parse "\x7bname\x7d/\x7bNAME\x7d".toList =
    .error (.invalidBrace "\x7bNAME\x7d".toList 7) := by decide +kernel

end Byssus
