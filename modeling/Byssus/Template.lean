import Byssus.Path
import Byssus.Library.Pattern

/-! Relative path templates such as `{name}/workspace`.
A template keeps the proof that its literals cannot add path components and that it
names the member, whichever way it was made. -/
namespace Byssus

/-- `MAX_PATH_LEN`. -/
def maxPathLen : ℕ := 4095

/-- What a placeholder stands for: a directory level of a group set, or the member. -/
abbrev Placeholder := Option (Fin maxSetDepth)

inductive Piece
  | literal (text : Text)
  | name
  | level (level : Fin maxSetDepth)
  deriving DecidableEq

namespace Piece

def ofPlaceholder : Placeholder → Piece
  | none => .name
  | some l => .level l

def isLiteral : Piece → Bool
  | .literal _ => true
  | _ => false

def symbol : Piece → Pattern.Symbol Placeholder Char
  | .literal text => .literal text
  | .name => .var none
  | .level l => .var (some l)

@[simp] theorem ofPlaceholder_eq_name {v : Placeholder} : ofPlaceholder v = .name ↔ v = none := by
  cases v <;> simp [ofPlaceholder]

@[simp] theorem ofPlaceholder_eq_level {v : Placeholder} {l : Fin maxSetDepth} :
    ofPlaceholder v = .level l ↔ v = some l := by
  cases v <;> simp [ofPlaceholder]

@[simp] theorem ofPlaceholder_ne_literal {v : Placeholder} {text : Text} :
    ofPlaceholder v ≠ .literal text := by
  cases v <;> simp [ofPlaceholder]

end Piece

/-- The text of the pieces where every placeholder stands for a text. -/
def textOf (σ : Placeholder → Text) (pieces : List Piece) : Text :=
  Pattern.instantiate σ (pieces.map Piece.symbol)

@[simp] theorem textOf_nil (σ : Placeholder → Text) : textOf σ [] = [] := rfl
@[simp] theorem textOf_literal (σ : Placeholder → Text) (text : Text) (pieces : List Piece) :
    textOf σ (.literal text::pieces) = text++textOf σ pieces := rfl
@[simp] theorem textOf_name (σ : Placeholder → Text) (pieces : List Piece) :
    textOf σ (.name::pieces) = σ none++textOf σ pieces := rfl
@[simp] theorem textOf_level (σ : Placeholder → Text) (level : Fin maxSetDepth)
    (pieces : List Piece) : textOf σ (.level level::pieces) = σ (some level)++textOf σ pieces := rfl
@[simp] theorem textOf_append (σ : Placeholder → Text) (ps qs : List Piece) :
    textOf σ (ps++qs) = textOf σ ps++textOf σ qs := by
  simp [textOf]

/-- Pieces that no valid names can turn into anything but one plain path component. -/
structure ValidPieces (pieces : List Piece) : Prop where
  literals : ∀ text, Piece.literal text ∈ pieces → '/' ∉ text ∧ nul ∉ text
  plain : pieces.all Piece.isLiteral = true → ∀ σ, isPlain (textOf σ pieces) = true

structure Template where
  raw : Text
  components : List (List Piece)
  valid : ∀ pieces ∈ components, ValidPieces pieces
  named : ∃ pieces ∈ components, Piece.name ∈ pieces
  deriving DecidableEq

inductive TemplateError
  | empty
  | absolute
  | trailingSlash
  | emptyComponent
  | dotComponent (component : Text)
  | invalidBrace (found : Text) (offset : ℕ)
  | nul
  | missingName
  | groupNotAllowed
  | missingLevel (placeholder : Text)
  | componentTooLong (len : ℕ)
  deriving DecidableEq

/-- `Display`. -/
def TemplateError.message : TemplateError → String
  | .empty => "template is empty"
  | .absolute => "template must be relative (must not begin with '/')"
  | .trailingSlash => "template must not end with '/'"
  | .emptyComponent => "template contains an empty path component"
  | .dotComponent component => "template contains a '" ++ String.ofList component ++
      "' path component"
  | .invalidBrace found offset => "template contains '" ++ String.ofList found ++ "' at byte " ++
      toString offset ++ "; the only placeholder is \x7bname\x7d"
  | .nul => "template contains a NUL byte"
  | .missingName => "template must contain \x7bname\x7d"
  | .groupNotAllowed =>
      "\x7bgroup\x7d and \x7bsubgroup\x7d are only allowed in group set templates"
  | .missingLevel placeholder => "template must contain " ++ String.ofList placeholder
  | .componentTooLong len => "template component is " ++ toString len ++
      " bytes long; the maximum is " ++ toString maxNameLen

inductive InterpolateError
  | componentTooLong (len : ℕ)
  | pathTooLong (len : ℕ)
  | invalidComponent (component : Text)
  deriving DecidableEq

/-- The text of a placeholder: `PLACEHOLDER` and `LEVEL_PLACEHOLDERS`. -/
def placeholderText : Placeholder → Text
  | none => "\x7bname\x7d".toList
  | some level => if level.val = 0 then "\x7bgroup\x7d".toList else "\x7bsubgroup\x7d".toList

theorem placeholderText_pos (p : Placeholder) : 0 < (placeholderText p).length := by
  cases p with
  | none => decide
  | some l =>
    revert l
    decide

def isBrace (c : Char) : Bool := c = '\x7b' || c = '\x7d'

/-- A literal piece, unless it is empty. -/
def literalPiece (text : Text) : List Piece := if text = [] then [] else [.literal text]

/-- The placeholder a text begins with. -/
def findPlaceholder (tail : Text) : Option Placeholder :=
  (none::(List.finRange maxSetDepth).map some).find? fun p => (placeholderText p).isPrefixOf tail

/-- The text an unexpected brace is reported with. -/
def foundBrace (tail : Text) : Text :=
  if tail.head? = some '\x7b' then
    match tail.findIdx? (· = '\x7d') with
    | some stop => tail.take (stop+1)
    | none => ['\x7b']
  else ['\x7d']

/-- `parse_component` from the byte `offset` on; nothing is left of earlier literals
where the loop of the source starts again. -/
def parseComponent (allowGroup : Bool) (rest : Text) (offset : ℕ) :
    Except TemplateError (List Piece) :=
  match _hpos : rest.findIdx? isBrace with
  | none => .ok (literalPiece rest)
  | some pos =>
    let literal := rest.take pos
    let tail := rest.drop pos
    let here := offset+byteLen literal
    match findPlaceholder tail with
    | none => .error (.invalidBrace (foundBrace tail) here)
    | some p =>
      if p.isSome && !allowGroup then .error .groupNotAllowed
      else
        match parseComponent allowGroup (tail.drop (placeholderText p).length)
            (here+byteLen (placeholderText p)) with
        | .error e => .error e
        | .ok pieces => .ok (literalPiece literal++Piece.ofPlaceholder p::pieces)
termination_by rest.length
decreasing_by
  have hlt := List.of_findIdx?_eq_some _hpos
  have hpp := placeholderText_pos p
  have hl : pos < rest.length := by
    by_contra hge
    rw [List.getElem?_eq_none (by omega)] at hlt
    cases hlt
  simp only [List.length_drop]
  omega

/-- The loop of `parse_inner` over the components from the byte `offset` on. -/
def parseComponents (allowGroup : Bool) : List Text → ℕ → Except TemplateError (List (List Piece))
  | [], _ => .ok []
  | component::rest, offset =>
    if component = [] then .error .emptyComponent
    else if component = ['.'] ∨ component = ['.','.'] then .error (.dotComponent component)
    else match parseComponent allowGroup component offset with
      | .error e => .error e
      | .ok pieces =>
        if pieces.all Piece.isLiteral = true ∧ byteLen component > maxNameLen then
          .error (.componentTooLong (byteLen component))
        else match parseComponents allowGroup rest (offset+byteLen component+1) with
          | .error e => .error e
          | .ok components => .ok (pieces::components)

theorem mem_literalPiece {p : Piece} {text : Text} (h : p ∈ literalPiece text) :
    p = .literal text := by
  unfold literalPiece at h
  split at h
  · cases h
  · exact List.mem_singleton.mp h

@[simp] theorem textOf_literalPiece (σ : Placeholder → Text) (text : Text) :
    textOf σ (literalPiece text) = text := by
  unfold literalPiece
  split
  · rename_i h
    simp [h]
  · simp

/-- The letters of the literals come from the component, which is its own text if it has
no placeholder; levels occur only where they are allowed. -/
theorem parseComponent_spec {allowGroup : Bool} {rest : Text} {offset : ℕ} {pieces : List Piece}
    (h : parseComponent allowGroup rest offset = .ok pieces) :
    (∀ text, Piece.literal text ∈ pieces → ∀ c ∈ text, c ∈ rest) ∧
      (pieces.all Piece.isLiteral = true → ∀ σ, textOf σ pieces = rest) ∧
      (allowGroup = false → ∀ level, Piece.level level ∉ pieces) := by
  induction hn : rest.length using Nat.strong_induction_on generalizing rest offset pieces with
  | _ n ih =>
  rw [parseComponent] at h
  split at h
  · cases h
    refine ⟨?_,fun _ σ => textOf_literalPiece σ rest,?_⟩
    · intro text htext c hc
      cases mem_literalPiece htext
      exact hc
    · intro _ level hl
      cases mem_literalPiece hl
  · rename_i pos hpos
    cases hp : findPlaceholder (rest.drop pos) with
    | none => simp [hp] at h
    | some p =>
      simp only [hp] at h
      split at h
      · cases h
      · rename_i hallow
        have hlt : pos < rest.length := by
          have hlt := List.of_findIdx?_eq_some hpos
          by_contra hge
          rw [List.getElem?_eq_none (by omega)] at hlt
          cases hlt
        have hpp := placeholderText_pos p
        cases hr : parseComponent allowGroup ((rest.drop pos).drop (placeholderText p).length)
            (offset+byteLen (rest.take pos)+byteLen (placeholderText p)) with
        | error e =>
          simp only [hr] at h
          cases h
        | ok ps =>
          simp only [hr,Except.ok.injEq] at h
          subst h
          have hrec := ih _ (by simp only [List.length_drop]; omega) hr rfl
          refine ⟨?_,?_,?_⟩
          · intro text htext c hc
            rcases List.mem_append.mp htext with htext | htext
            · cases mem_literalPiece htext
              exact List.mem_of_mem_take hc
            · rcases List.mem_cons.mp htext with heq | htext
              · cases p <;> cases heq
              · exact List.mem_of_mem_drop (List.mem_of_mem_drop (hrec.1 text htext c hc))
          · intro hall
            cases p <;> simp [Piece.ofPlaceholder,Piece.isLiteral] at hall
          · intro hfalse level hl
            rcases List.mem_append.mp hl with hl | hl
            · cases mem_literalPiece hl
            · rcases List.mem_cons.mp hl with heq | hl
              · rw [Piece.ofPlaceholder_eq_level.mp heq.symm,hfalse] at hallow
                exact hallow rfl
              · exact hrec.2.2 hfalse level hl

/-- Every component of an accepted template was parsed from one of the text. -/
theorem parseComponents_mem {allowGroup : Bool} {components : List Text} {offset : ℕ}
    {parsed : List (List Piece)} (h : parseComponents allowGroup components offset = .ok parsed) :
    ∀ pieces ∈ parsed, ∃ component ∈ components, component ≠ [] ∧ component ≠ ['.'] ∧
      component ≠ ['.','.'] ∧ ∃ start, parseComponent allowGroup component start = .ok pieces := by
  induction components generalizing offset parsed with
  | nil =>
    cases h
    intro pieces hp
    cases hp
  | cons component rest ih =>
    unfold parseComponents at h
    split_ifs at h with h₁ h₂
    cases hp : parseComponent allowGroup component offset with
    | error e => simp [hp] at h
    | ok pieces =>
      simp only [hp] at h
      split_ifs at h
      cases hr : parseComponents allowGroup rest (offset+byteLen component+1) with
      | error e => simp [hr] at h
      | ok ps =>
        simp only [hr,Except.ok.injEq] at h
        subst h
        intro qs hqs
        rcases List.mem_cons.mp hqs with rfl | hqs
        · exact ⟨component,by simp,h₁,fun h => h₂ (.inl h),fun h => h₂ (.inr h),offset,hp⟩
        · obtain ⟨c,hc,hrest⟩ := ih hr qs hqs
          exact ⟨c,by simp [hc],hrest⟩

theorem parseComponents_valid {allowGroup : Bool} {components : List Text} {offset : ℕ}
    {parsed : List (List Piece)} (hc : ∀ c ∈ components, '/' ∉ c ∧ nul ∉ c)
    (h : parseComponents allowGroup components offset = .ok parsed) :
    ∀ pieces ∈ parsed, ValidPieces pieces := by
  intro pieces hp
  obtain ⟨component,hmem,hne,hdot,hdots,start,hparse⟩ := parseComponents_mem h pieces hp
  have hcomp := hc component hmem
  obtain ⟨hletters,htext,-⟩ := parseComponent_spec hparse
  constructor
  · intro text ht
    exact ⟨fun hs => hcomp.1 (hletters text ht _ hs),fun hs => hcomp.2 (hletters text ht _ hs)⟩
  · intro hall σ
    rw [htext hall σ,isPlain_iff]
    exact ⟨hne,hdot,hdots,hcomp⟩

namespace Template

/-- `Template::parse_inner`. -/
def parseInner (raw : Text) (allowGroup : Bool) : Except TemplateError Template :=
  if raw = [] then .error .empty
  else if hn : raw.contains nul then .error .nul
  else if raw.head? = some '/' then .error .absolute
  else if raw.getLast? = some '/' then .error .trailingSlash
  else match h : parseComponents allowGroup (raw.splitOn '/') 0 with
    | .error e => .error e
    | .ok components =>
      if hname : ∃ pieces ∈ components, Piece.name ∈ pieces then
        .ok ⟨raw,components,parseComponents_valid (fun c hc =>
          ⟨Lists.notMem_of_mem_splitOn hc,fun h0 => hn (by
            simpa using Lists.mem_of_mem_splitOn hc h0)⟩) h,hname⟩
      else .error .missingName

/-- `Template::parse`, for a statically configured group. -/
def parse (raw : Text) : Except TemplateError Template := parseInner raw false

/-- `Template::parse_for_set`. -/
def parseForSet (raw : Text) : Except TemplateError Template := parseInner raw true

/-- `Template::depth`: how many group set levels the template refers to. -/
def depth (t : Template) : ℕ :=
  (t.components.flatten.filterMap fun
    | .level level => some (level.val+1)
    | _ => none).foldr max 0

/-- `Template::has_level`. -/
def hasLevel (t : Template) (level : Fin maxSetDepth) : Bool :=
  t.components.flatten.any (· = .level level)

theorem level_lt_depth {t : Template} {pieces : List Piece} {level : Fin maxSetDepth}
    (hp : pieces ∈ t.components) (hl : Piece.level level ∈ pieces) : level.val < t.depth := by
  have hmax : ∀ (xs : List ℕ) x, x ∈ xs → x ≤ xs.foldr max 0 := by
    intro xs x hx
    induction xs with
    | nil => cases hx
    | cons y xs ih =>
      simp only [List.foldr_cons]
      rcases List.mem_cons.mp hx with rfl | hx
      · exact Nat.le_max_left _ _
      · exact (ih hx).trans (Nat.le_max_right _ _)
  apply hmax
  rw [List.mem_filterMap]
  exact ⟨.level level,List.mem_flatten.mpr ⟨pieces,hp,hl⟩,rfl⟩

theorem depth_le {t : Template} {n : ℕ}
    (h : ∀ pieces ∈ t.components, ∀ level, Piece.level level ∈ pieces → level.val < n) :
    t.depth ≤ n := by
  have hmax : ∀ xs : List ℕ, (∀ x ∈ xs, x ≤ n) → xs.foldr max 0 ≤ n := by
    intro xs hx
    induction xs with
    | nil => exact Nat.zero_le _
    | cons y xs ih =>
      simp only [List.foldr_cons]
      exact Nat.max_le.mpr ⟨hx y (by simp),ih fun x hm => hx x (by simp [hm])⟩
  apply hmax
  intro x hx
  obtain ⟨p,hp,hpx⟩ := List.mem_filterMap.mp hx
  obtain ⟨pieces,hpieces,hmem⟩ := List.mem_flatten.mp hp
  cases p with
  | literal text => cases hpx
  | name => cases hpx
  | level level =>
    have hlt := h pieces hpieces level hmem
    cases hpx
    omega

/-- A template of a static group has no level. -/
theorem parse_depth {raw : Text} {t : Template} (h : parse raw = .ok t) : t.depth = 0 := by
  unfold parse parseInner at h
  split_ifs at h
  split at h
  · cases h
  · rename_i components hc
    split_ifs at h
    cases h
    apply Nat.le_zero.mp
    apply depth_le
    intro pieces hp level hl
    obtain ⟨component,-,-,-,-,start,hparse⟩ := parseComponents_mem hc pieces hp
    exact absurd hl ((parseComponent_spec hparse).2.2 rfl level)

theorem depth_le_maxSetDepth (t : Template) : t.depth ≤ maxSetDepth :=
  depth_le fun _ _ level _ => level.isLt

theorem hasLevel_iff {t : Template} {level : Fin maxSetDepth} :
    t.hasLevel level = true ↔ ∃ pieces ∈ t.components, Piece.level level ∈ pieces := by
  simp [hasLevel]

end Template

/-- `levels[level].as_str()`; the source panics where there is no such level. -/
def levelText (levels : List Name) (level : Fin maxSetDepth) : Text :=
  match levels[level.val]? with
  | some n => n.text
  | none => []

/-- Appends to the last literal, or as a new one. -/
def pushText (bound : List Piece) (text : Text) : List Piece :=
  match bound.getLast? with
  | some (.literal last) => bound.dropLast++[.literal (last++text)]
  | _ => bound++[.literal text]

/-- One iteration of the loop over the pieces in `bind_levels`. -/
def bindPiece (levels : List Name) (bound : List Piece) : Piece → List Piece
  | .name => bound++[.name]
  | .literal text => pushText bound text
  | .level level => pushText bound (levelText levels level)

/-- The loop over the pieces of a component in `bind_levels`. -/
def boundPieces (levels : List Name) (pieces : List Piece) : List Piece :=
  pieces.foldl (bindPiece levels) []

/-- What is appended to `raw`. -/
def rawPiece (levels : List Name) : Piece → Text
  | .name => placeholderText none
  | .literal text => text
  | .level level => levelText levels level

/-- One iteration of the loop over the components in `bind_levels`. -/
def bindComponent (levels : List Name) (pieces : List Piece) :
    Except InterpolateError (List Piece × Text) :=
  let bound := boundPieces levels pieces
  let raw := pieces.flatMap (rawPiece levels)
  if Piece.name ∉ bound ∧ byteLen raw > maxNameLen then .error (.componentTooLong (byteLen raw))
  else .ok (bound,raw)

def bindComponents (levels : List Name) :
    List (List Piece) → Except InterpolateError (List (List Piece × Text))
  | [] => .ok []
  | pieces::rest =>
    match bindComponent levels pieces with
    | .error e => .error e
    | .ok part =>
      match bindComponents levels rest with
      | .error e => .error e
      | .ok parts => .ok (part::parts)

/-- What the placeholders stand for while the levels are bound and `σ` gives the rest. -/
def bindWith (levels : List Name) (σ : Placeholder → Text) : Placeholder → Text
  | none => σ none
  | some level => levelText levels level

theorem textOf_pushText (σ : Placeholder → Text) (bound : List Piece) (text : Text) :
    textOf σ (pushText bound text) = textOf σ bound++text := by
  unfold pushText
  cases hl : bound.getLast? with
  | none =>
    rw [List.getLast?_eq_none_iff.mp hl]
    simp
  | some p =>
    cases p with
    | literal last =>
      have hb : bound = bound.dropLast++[.literal last] :=
        (List.dropLast_append_getLast? _ hl).symm
      conv_rhs => rw [hb]
      simp
    | name => simp
    | level level => simp

/-- Binding the levels leaves the text of a component as it is. -/
theorem textOf_bind (levels : List Name) (σ : Placeholder → Text) (pieces bound : List Piece) :
    textOf σ (pieces.foldl (bindPiece levels) bound) =
      textOf σ bound++textOf (bindWith levels σ) pieces := by
  induction pieces generalizing bound with
  | nil => simp
  | cons p pieces ih =>
    rw [List.foldl_cons,ih]
    cases p with
    | literal text => simp [bindPiece,textOf_pushText]
    | name => simp [bindPiece,bindWith]
    | level level => simp [bindPiece,textOf_pushText,bindWith]

theorem textOf_boundPieces (levels : List Name) (σ : Placeholder → Text) (pieces : List Piece) :
    textOf σ (boundPieces levels pieces) = textOf (bindWith levels σ) pieces := by
  simp [boundPieces,textOf_bind]

/-- A letter of the text comes from a literal or from what a placeholder stands for. -/
theorem mem_textOf {σ : Placeholder → Text} {pieces : List Piece} {c : Char} :
    c ∈ textOf σ pieces ↔ (∃ text, Piece.literal text ∈ pieces ∧ c ∈ text) ∨
      ∃ v, Piece.ofPlaceholder v ∈ pieces ∧ c ∈ σ v := by
  induction pieces with
  | nil => simp
  | cons p pieces ih =>
    cases p with
    | literal text =>
      rw [textOf_literal,List.mem_append,ih]
      simp [or_and_right,exists_or,or_assoc]
    | name =>
      rw [textOf_name,List.mem_append,ih]
      simp [or_and_right,exists_or,or_left_comm]
    | level level =>
      rw [textOf_level,List.mem_append,ih]
      simp [or_and_right,exists_or,or_left_comm]

/-- Where names stand for the placeholders, the text is a plain component. -/
theorem ValidPieces.isPlain_textOf {pieces : List Piece} (h : ValidPieces pieces)
    {σ : Placeholder → Text} (hσ : ∀ v, Piece.ofPlaceholder v ∈ pieces → ValidName (σ v)) :
    isPlain (textOf σ pieces) = true := by
  by_cases hall : pieces.all Piece.isLiteral = true
  · exact h.plain hall σ
  have hv : ∃ v, Piece.ofPlaceholder v ∈ pieces := by
    simp only [List.all_eq_true,not_forall] at hall
    obtain ⟨p,hp,hl⟩ := hall
    cases p with
    | literal text => exact absurd rfl hl
    | name => exact ⟨none,hp⟩
    | level level => exact ⟨some level,hp⟩
  obtain ⟨v,hv⟩ := hv
  obtain ⟨c,rest,hc⟩ := List.exists_cons_of_ne_nil (hσ v hv).1
  have hdot : c ≠ '.' := by
    intro hd
    apply (hσ v hv).2.2.1
    simp [hc,hd]
  have hmem : c ∈ textOf σ pieces := mem_textOf.mpr (.inr ⟨v,hv,by simp [hc]⟩)
  have hsafe : ∀ a, a = '/' ∨ a = nul → a ∉ textOf σ pieces := by
    intro a ha hin
    rcases mem_textOf.mp hin with ⟨text,ht,hat⟩ | ⟨w,hw,haw⟩
    · rcases ha with rfl | rfl
      · exact (h.literals text ht).1 hat
      · exact (h.literals text ht).2 hat
    · let n : Name := ⟨σ w,hσ w hw⟩
      rcases ha with rfl | rfl
      · exact n.slash_notMem haw
      · exact n.nul_notMem haw
  rw [isPlain_iff]
  refine ⟨?_,?_,?_,hsafe _ (.inl rfl),hsafe _ (.inr rfl)⟩
  · intro hn
    rw [hn] at hmem
    cases hmem
  · intro hn
    rw [hn] at hmem
    exact hdot (List.mem_singleton.mp hmem)
  · intro hn
    rw [hn] at hmem
    simp only [List.mem_cons,List.not_mem_nil,or_false,or_self] at hmem
    exact hdot hmem

theorem mem_pushText {p : Piece} {bound : List Piece} {text : Text} (h : p ∈ pushText bound text) :
    p ∈ bound ∨ p.isLiteral = true := by
  unfold pushText at h
  split at h
  · rcases List.mem_append.mp h with h | h
    · exact .inl (List.mem_of_mem_dropLast h)
    · exact .inr (by rw [List.mem_singleton.mp h]; rfl)
  · rcases List.mem_append.mp h with h | h
    · exact .inl h
    · exact .inr (by rw [List.mem_singleton.mp h]; rfl)

theorem name_mem_pushText {bound : List Piece} {text : Text} :
    Piece.name ∈ pushText bound text ↔ Piece.name ∈ bound := by
  unfold pushText
  cases hl : bound.getLast? with
  | none => simp
  | some p =>
    have hb : bound = bound.dropLast++[p] := (List.dropLast_append_getLast? _ hl).symm
    cases p with
    | literal last =>
      conv_rhs => rw [hb]
      simp
    | name => simp
    | level level => simp

theorem name_mem_boundPieces {levels : List Name} {pieces : List Piece} :
    Piece.name ∈ boundPieces levels pieces ↔ Piece.name ∈ pieces := by
  have hfold : ∀ bound, Piece.name ∈ pieces.foldl (bindPiece levels) bound ↔
      Piece.name ∈ bound ∨ Piece.name ∈ pieces := by
    induction pieces with
    | nil => simp
    | cons p pieces ih =>
      intro bound
      rw [List.foldl_cons,ih]
      cases p <;> simp [bindPiece,name_mem_pushText]
  simp [boundPieces,hfold]

theorem level_notMem_boundPieces {levels : List Name} {pieces : List Piece}
    (level : Fin maxSetDepth) : Piece.level level ∉ boundPieces levels pieces := by
  apply Lists.foldl_induction (f := bindPiece levels) (P := fun _ bound => Piece.level level ∉ bound)
  · simp
  · intro _ p bound hb
    have hpush : ∀ text, Piece.level level ∉ pushText bound text := by
      intro text h
      rcases mem_pushText h with h | h
      · exact hb h
      · cases h
    cases p with
    | literal text => exact hpush _
    | name => simpa [bindPiece] using hb
    | level l => exact hpush _

/-- The literals after binding are made of literals and level names. -/
theorem literal_boundPieces {levels : List Name} {pieces : List Piece} {text : Text} {c : Char}
    (ht : Piece.literal text ∈ boundPieces levels pieces) (hc : c ∈ text) :
    c ∈ textOf (bindWith levels fun _ => []) pieces := by
  rw [← textOf_boundPieces]
  exact mem_textOf.mpr (.inl ⟨text,ht,hc⟩)

theorem levelText_valid {levels : List Name} {level : Fin maxSetDepth}
    (h : level.val < levels.length) : ValidName (levelText levels level) := by
  unfold levelText
  rw [List.getElem?_eq_getElem h]
  exact (levels[level.val]).valid

/-- Binding keeps the pieces valid. -/
theorem ValidPieces.bound {levels : List Name} {pieces : List Piece} (h : ValidPieces pieces)
    (hl : ∀ level, Piece.level level ∈ pieces → level.val < levels.length) :
    ValidPieces (boundPieces levels pieces) where
  literals := by
    intro text ht
    have hsafe : ∀ c ∈ text, c ≠ '/' ∧ c ≠ nul := by
      intro c hc
      rcases mem_textOf.mp (literal_boundPieces ht hc) with ⟨s,hs,hcs⟩ | ⟨v,hv,hcv⟩
      · refine ⟨?_,?_⟩
        · rintro rfl; exact (h.literals s hs).1 hcs
        · rintro rfl; exact (h.literals s hs).2 hcs
      · cases v with
        | none => cases hcv
        | some level =>
          let n : Name := ⟨levelText levels level,levelText_valid (hl level hv)⟩
          refine ⟨?_,?_⟩
          · rintro rfl; exact n.slash_notMem hcv
          · rintro rfl; exact n.nul_notMem hcv
    exact ⟨fun hs => (hsafe _ hs).1 rfl,fun hs => (hsafe _ hs).2 rfl⟩
  plain := by
    intro hall σ
    rw [textOf_boundPieces]
    apply h.isPlain_textOf
    intro v hv
    cases v with
    | none =>
      have hn : Piece.name ∈ boundPieces levels pieces := name_mem_boundPieces.mpr hv
      have hlit := List.all_eq_true.mp hall _ hn
      cases hlit
    | some level => exact levelText_valid (hl level hv)

theorem bindComponents_ok_iff {levels : List Name} {components : List (List Piece)}
    {parts : List (List Piece × Text)} : bindComponents levels components = .ok parts ↔
      (∀ pieces ∈ components, Piece.name ∈ pieces ∨
        byteLen (pieces.flatMap (rawPiece levels)) ≤ maxNameLen) ∧
      parts = components.map fun pieces =>
        (boundPieces levels pieces,pieces.flatMap (rawPiece levels)) := by
  induction components generalizing parts with
  | nil => simp [bindComponents,eq_comm]
  | cons pieces rest ih =>
    have hfirst : ∀ part, bindComponent levels pieces = .ok part ↔
        (Piece.name ∈ pieces ∨ byteLen (pieces.flatMap (rawPiece levels)) ≤ maxNameLen) ∧
        part = (boundPieces levels pieces,pieces.flatMap (rawPiece levels)) := by
      intro part
      unfold bindComponent
      simp only [name_mem_boundPieces]
      split_ifs with hif
      · simp only [false_iff]
        intro h
        rcases h.1 with h | h
        · exact hif.1 h
        · omega
      · simp only [Except.ok.injEq,eq_comm (b := part)]
        refine (and_iff_right ?_).symm
        by_contra hno
        exact hif ⟨fun h => hno (.inl h),by
          by_contra hle
          exact hno (.inr (by omega))⟩
    unfold bindComponents
    cases hp : bindComponent levels pieces with
    | error e =>
      simp only [reduceCtorEq,false_iff]
      intro h
      have hok := (hfirst _).mpr ⟨h.1 pieces (by simp),rfl⟩
      rw [hp] at hok
      cases hok
    | ok part =>
      obtain ⟨hfit,hpart⟩ := (hfirst part).mp hp
      cases hr : bindComponents levels rest with
      | error e =>
        simp only [reduceCtorEq,false_iff]
        intro h
        have hok := ih.mpr ⟨fun q hq => h.1 q (by simp [hq]),rfl⟩
        rw [hr] at hok
        cases hok
      | ok ps =>
        obtain ⟨hrest,hps⟩ := ih.mp hr
        simp only [Except.ok.injEq,List.mem_cons,forall_eq_or_imp,List.map_cons,hpart,hps]
        simp [hfit,eq_comm (b := parts)]
        exact fun _ => hrest

namespace Template

/-- `Template::bind_levels`; the template refers to no level beyond `levels`. -/
def bindLevels (t : Template) (levels : List Name) (h : t.depth ≤ levels.length) :
    Except InterpolateError Template :=
  match hb : bindComponents levels t.components with
  | .error e => .error e
  | .ok parts => .ok {
      raw := List.intercalate ['/'] (parts.map Prod.snd)
      components := parts.map Prod.fst
      valid := by
        intro pieces hp
        rw [(bindComponents_ok_iff.mp hb).2,List.map_map] at hp
        obtain ⟨qs,hqs,rfl⟩ := List.mem_map.mp hp
        apply (t.valid qs hqs).bound
        intro level hl
        have hlt := level_lt_depth hqs hl
        omega
      named := by
        obtain ⟨qs,hqs,hn⟩ := t.named
        refine ⟨boundPieces levels qs,?_,name_mem_boundPieces.mpr hn⟩
        rw [(bindComponents_ok_iff.mp hb).2,List.map_map]
        exact List.mem_map_of_mem hqs }

/-- A component without the member's placeholder fits `NAME_MAX` once the levels are bound. -/
def BindFits (t : Template) (levels : List Name) : Prop :=
  ∀ pieces ∈ t.components, Piece.name ∈ pieces ∨
    byteLen (pieces.flatMap (rawPiece levels)) ≤ maxNameLen

theorem bindLevels_ok_iff {t : Template} {levels : List Name} {h : t.depth ≤ levels.length} :
    (∃ u, t.bindLevels levels h = .ok u) ↔ t.BindFits levels := by
  unfold bindLevels
  constructor
  · intro hex
    obtain ⟨u,hu⟩ := hex
    split at hu
    · cases hu
    · rename_i parts hb
      exact (bindComponents_ok_iff.mp hb).1
  · intro hfit
    have hb := bindComponents_ok_iff.mpr ⟨hfit,rfl⟩
    split
    · rename_i e he
      rw [he] at hb
      cases hb
    · exact ⟨_,rfl⟩

theorem bindLevels_components {t u : Template} {levels : List Name} {h : t.depth ≤ levels.length}
    (hu : t.bindLevels levels h = .ok u) :
    u.components = t.components.map (boundPieces levels) := by
  unfold bindLevels at hu
  split at hu
  · cases hu
  · rename_i parts hb
    cases hu
    have hparts := (bindComponents_ok_iff.mp hb).2
    change parts.map Prod.fst = _
    rw [hparts]
    simp [Function.comp_def]

/-- Only the member's placeholder is left by `bindLevels`. -/
theorem bindLevels_depth {t u : Template} {levels : List Name} {h : t.depth ≤ levels.length}
    (hu : t.bindLevels levels h = .ok u) : u.depth = 0 := by
  apply Nat.le_zero.mp
  apply depth_le
  intro pieces hp level hl
  rw [bindLevels_components hu] at hp
  obtain ⟨qs,-,rfl⟩ := List.mem_map.mp hp
  exact absurd hl (level_notMem_boundPieces level)

/-! ### Interpolation -/

/-- One iteration of the loop over the pieces in `components`. -/
def namePiece (name : Name) (component : Text) : Piece → Text
  | .literal text => component++text
  | .name => component++name.text
  | .level _ => component -- unreachable in a template whose levels are bound

/-- The loop of `components`: what is done so far, and its length. -/
def componentsLoop (name : Name) :
    List (List Piece) → List Text → ℕ → Except InterpolateError (List Text × ℕ)
  | [], out, total => .ok (out,total)
  | pieces::rest, out, total =>
    let component := pieces.foldl (namePiece name) []
    if byteLen component > maxNameLen then .error (.componentTooLong (byteLen component))
    else if component = [] ∨ component = ['.'] ∨ component = ['.','.'] ∨ '/' ∈ component then
      .error (.invalidComponent component)
    else componentsLoop name rest (out++[component])
      (total+byteLen component+if out.isEmpty then 0 else 1)

/-- `Template::components`. -/
def interpolatedComponents (t : Template) (name : Name) : Except InterpolateError (List Text) :=
  match componentsLoop name t.components [] 0 with
  | .error e => .error e
  | .ok (out,total) => if total > maxPathLen then .error (.pathTooLong total) else .ok out

/-- `Template::interpolate`. -/
def interpolate (t : Template) (name : Name) : Except InterpolateError Text :=
  (t.interpolatedComponents name).map (List.intercalate ['/'])

/-- What the placeholders stand for when a member is interpolated. -/
def memberText (name : Name) : Placeholder → Text
  | none => name.text
  | some _ => []

theorem foldl_namePiece (name : Name) (pieces : List Piece) :
    pieces.foldl (namePiece name) [] = textOf (memberText name) pieces := by
  have hfold : ∀ component, pieces.foldl (namePiece name) component =
      component++textOf (memberText name) pieces := by
    induction pieces with
    | nil => simp
    | cons p pieces ih =>
      intro component
      rw [List.foldl_cons,ih]
      cases p <;> simp [namePiece,memberText]
  simpa using hfold []

theorem byteLen_intercalate_concat (out : List Text) (component : Text) :
    byteLen (List.intercalate ['/'] (out++[component])) =
      byteLen (List.intercalate ['/'] out)+byteLen component+if out.isEmpty then 0 else 1 := by
  have hslash : '/'.utf8Size = 1 := by decide
  induction out with
  | nil => simp [List.intercalate]
  | cons c out ih =>
    cases out with
    | nil =>
      simp [List.intercalate,hslash]
      omega
    | cons d out =>
      simp only [List.cons_append,List.intercalate_cons_cons,byteLen_append,byteLen_cons] at ih ⊢
      simp only [ih,List.isEmpty_cons]
      omega

/-- The length of the first component over `NAME_MAX`. -/
def overlong (components : List Text) : Option ℕ :=
  (components.map byteLen).find? (maxNameLen < ·)

theorem overlong_eq_none {components : List Text} :
    overlong components = none ↔ ∀ c ∈ components, byteLen c ≤ maxNameLen := by
  simp [overlong]

/-- Where names stand for the placeholders, the loop fails at the first component over the
limit only, and else computes the path's length. -/
theorem componentsLoop_eq {name : Name} {components : List (List Piece)}
    (hplain : ∀ pieces ∈ components, isPlain (textOf (memberText name) pieces) = true)
    (out : List Text) :
    componentsLoop name components out (byteLen (List.intercalate ['/'] out)) =
      match overlong (components.map (textOf (memberText name))) with
      | some len => .error (.componentTooLong len)
      | none => .ok (out++components.map (textOf (memberText name)),
          byteLen (List.intercalate ['/'] (out++components.map (textOf (memberText name))))) := by
  induction components generalizing out with
  | nil => simp [componentsLoop,overlong]
  | cons pieces rest ih =>
    have hp := (isPlain_iff _).mp (hplain pieces (by simp))
    have hok : ¬(textOf (memberText name) pieces = [] ∨ textOf (memberText name) pieces = ['.'] ∨
        textOf (memberText name) pieces = ['.','.'] ∨ '/' ∈ textOf (memberText name) pieces) := by
      intro h
      rcases h with h | h | h | h
      · exact hp.1 h
      · exact hp.2.1 h
      · exact hp.2.2.1 h
      · exact hp.2.2.2.1 h
    simp only [componentsLoop,foldl_namePiece]
    by_cases hfit : maxNameLen < byteLen (textOf (memberText name) pieces)
    · rw [if_pos hfit]
      simp [overlong,hfit]
    · have hrest := ih (fun q hq => hplain q (by simp [hq])) (out++[textOf (memberText name) pieces])
      rw [if_neg hfit,if_neg hok,← byteLen_intercalate_concat,hrest]
      simp [overlong,hfit]

/-- The path with texts for the placeholders. -/
def path (t : Template) (σ : Placeholder → Text) : Text :=
  List.intercalate ['/'] (t.components.map (textOf σ))

theorem isPlain_memberText {t : Template} (ht : t.depth = 0) (name : Name) {pieces : List Piece}
    (hp : pieces ∈ t.components) : isPlain (textOf (memberText name) pieces) = true := by
  apply (t.valid pieces hp).isPlain_textOf
  intro v hv
  cases v with
  | none => exact name.valid
  | some level =>
    have hlt := level_lt_depth hp hv
    omega

/-- Exactly the limits decide what the interpolation of a bound template returns. -/
theorem interpolate_eq {t : Template} (ht : t.depth = 0) (name : Name) :
    t.interpolate name = match overlong (t.components.map (textOf (memberText name))) with
      | some len => .error (.componentTooLong len)
      | none => if byteLen (t.path (memberText name)) > maxPathLen
          then .error (.pathTooLong (byteLen (t.path (memberText name))))
          else .ok (t.path (memberText name)) := by
  have hloop := componentsLoop_eq (fun _ => isPlain_memberText ht name) []
  simp only [List.intercalate_nil,byteLen_nil,List.nil_append] at hloop
  unfold interpolate interpolatedComponents
  rw [hloop]
  cases overlong (t.components.map (textOf (memberText name))) with
  | some len => rfl
  | none =>
    by_cases hlen : byteLen (t.path (memberText name)) > maxPathLen
    · simp only [if_pos hlen]
      rw [if_pos (show byteLen (List.intercalate ['/'] _) > maxPathLen from hlen)]
      rfl
    · simp only [if_neg hlen]
      rw [if_neg (show ¬byteLen (List.intercalate ['/'] _) > maxPathLen from hlen)]
      rfl

theorem interpolate_ok_iff {t : Template} (ht : t.depth = 0) {name : Name} {p : Text} :
    t.interpolate name = .ok p ↔
      (∀ pieces ∈ t.components, byteLen (textOf (memberText name) pieces) ≤ maxNameLen) ∧
      byteLen p ≤ maxPathLen ∧ p = t.path (memberText name) := by
  have hfits : overlong (t.components.map (textOf (memberText name))) = none ↔ _ :=
    overlong_eq_none
  simp only [List.forall_mem_map] at hfits
  rw [interpolate_eq ht,← hfits]
  cases overlong (t.components.map (textOf (memberText name))) with
  | some len => simp
  | none =>
    by_cases hlen : byteLen (t.path (memberText name)) > maxPathLen
    · simp only [if_pos hlen,reduceCtorEq,true_and,false_iff]
      rintro ⟨hle,rfl⟩
      omega
    · simp only [if_neg hlen,Except.ok.injEq,true_and]
      constructor
      · rintro rfl
        exact ⟨by omega,rfl⟩
      · intro h
        exact h.2.symm

end Template
end Byssus
