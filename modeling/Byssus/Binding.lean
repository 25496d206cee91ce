import Byssus.Interpolation
import Byssus.TemplateGrammar

/-! Binding the levels of a template is substitution in its text.
The source binds pieces, and writes the bound text beside them; the text is a template
again, whose pieces are the bound ones.  Of one bound template the paths of two members
are apart. -/
namespace Byssus
open Template

/-- The text with other texts for its placeholders, replaced from left to right. -/
def replacePlaceholders (σ : Placeholder → Text) (text : Text) : Text :=
  match text with
  | [] => []
  | c::rest =>
    match findPlaceholder (c::rest) with
    | none => c::replacePlaceholders σ rest
    | some p => σ p++replacePlaceholders σ (rest.drop ((placeholderText p).length-1))
termination_by text.length
decreasing_by
  all_goals
    simp only [List.length_cons,List.length_drop]
    omega

/-- The levels' names stand for their placeholders, and the member's stays. -/
def levelTexts (levels : List Name) : Placeholder → Text := bindWith levels placeholderText

/-- All the names stand for their placeholders. -/
def nameTexts (levels : List Name) (name : Name) : Placeholder → Text :=
  bindWith levels (memberText name)

/-- The limits of a path: those of its components in their order, then its own. -/
def limited (path : Text) : Except InterpolateError Text :=
  match overlong (path.splitOn '/') with
  | some len => .error (.componentTooLong len)
  | none => if byteLen path > maxPathLen then .error (.pathTooLong (byteLen path)) else .ok path

/-! ### Replacing in the text of pieces -/

theorem replace_letter (σ : Placeholder → Text) {c : Char} (hc : isBrace c = false) (rest : Text) :
    replacePlaceholders σ (c::rest) = c::replacePlaceholders σ rest := by
  have hno : findPlaceholder (c::rest) = none := by
    rw [findPlaceholder_eq_none]
    intro p hp
    obtain ⟨body,hbody⟩ := List.head?_eq_some_iff.mp (placeholderText_head p)
    rw [hbody,List.cons_prefix_cons] at hp
    rw [← hp.1] at hc
    exact absurd hc (by decide)
  rw [replacePlaceholders,hno]

theorem replace_braceFree (σ : Placeholder → Text) {a : Text} (ha : BraceFree a) (b : Text) :
    replacePlaceholders σ (a++b) = a++replacePlaceholders σ b := by
  induction a with
  | nil => rfl
  | cons c a ih =>
    rw [List.cons_append,replace_letter σ (ha c (by simp)),ih fun d hd => ha d (by simp [hd]),
      List.cons_append]

theorem replace_placeholder (σ : Placeholder → Text) (p : Placeholder) (rest : Text) :
    replacePlaceholders σ (placeholderText p++rest) = σ p++replacePlaceholders σ rest := by
  obtain ⟨body,hbody⟩ := List.head?_eq_some_iff.mp (placeholderText_head p)
  have hfind := findPlaceholder_append p rest
  rw [hbody,List.cons_append] at hfind ⊢
  rw [replacePlaceholders,hfind]
  simp [hbody]

theorem replace_textOf {allowGroup : Bool} {pieces : List Piece} (h : Normal allowGroup pieces)
    (σ : Placeholder → Text) (rest : Text) :
    replacePlaceholders σ (textOf placeholderText pieces++rest) =
      textOf σ pieces++replacePlaceholders σ rest := by
  induction pieces using pieces_induction with
  | nil => rfl
  | literal text pieces ih =>
    obtain ⟨-,hfree,-,hrest⟩ := normal_literal.mp h
    rw [textOf_literal,textOf_literal,List.append_assoc,replace_braceFree σ hfree,ih hrest,
      List.append_assoc]
  | placeholder p pieces ih =>
    obtain ⟨-,hrest⟩ := normal_placeholder.mp h
    rw [textOf_ofPlaceholder,textOf_ofPlaceholder,List.append_assoc,replace_placeholder,ih hrest,
      List.append_assoc]

theorem replace_component {allowGroup : Bool} {pieces : List Piece}
    (h : Normal allowGroup pieces) (σ : Placeholder → Text) :
    replacePlaceholders σ (textOf placeholderText pieces) = textOf σ pieces := by
  have hnil : replacePlaceholders σ [] = [] := by rw [replacePlaceholders]
  have happ := replace_textOf h σ []
  rwa [List.append_nil,hnil,List.append_nil] at happ

/-- Every component is replaced on its own. -/
theorem replace_path {allowGroup : Bool} {components : List (List Piece)}
    (h : ∀ pieces ∈ components, Normal allowGroup pieces) (σ : Placeholder → Text) :
    replacePlaceholders σ (List.intercalate ['/'] (components.map (textOf placeholderText))) =
      List.intercalate ['/'] (components.map (textOf σ)) := by
  induction components with
  | nil =>
    rw [List.map_nil,List.map_nil,List.intercalate_nil,replacePlaceholders]
  | cons pieces rest ih =>
    have hp := h pieces (by simp)
    by_cases hrest : rest = []
    · subst hrest
      simpa using replace_component hp σ
    · rw [List.map_cons,List.map_cons,intercalate_cons_ne_nil _ (by simpa using hrest),
        intercalate_cons_ne_nil _ (by simpa using hrest),replace_textOf hp,
        replace_braceFree σ (by decide),ih fun q hq => h q (by simp [hq])]

/-! ### The bound pieces -/

theorem normal_concat {allowGroup : Bool} {bound : List Piece} {p : Piece} :
    Normal allowGroup (bound++[p]) ↔ Normal allowGroup bound ∧ Normal allowGroup [p] ∧
      ∀ q, bound.getLast? = some q → ¬(q.isLiteral = true ∧ p.isLiteral = true) := by
  constructor
  · intro h
    obtain ⟨h₁,h₂,hborder⟩ := List.isChain_append.mp h.separate
    exact ⟨⟨fun s hs => h.literals s (by simp [hs]),h₁,fun l hl => h.levels l (by simp [hl])⟩,
      ⟨fun s hs => h.literals s (by simp at hs; simp [hs]),h₂,
        fun l hl => h.levels l (by simp at hl; simp [hl])⟩,
      fun q hq => hborder q hq p rfl⟩
  · rintro ⟨hb,hp,hborder⟩
    refine ⟨?_,List.isChain_append.mpr ⟨hb.separate,hp.separate,?_⟩,?_⟩
    · intro s hs
      rcases List.mem_append.mp hs with hs | hs
      · exact hb.literals s hs
      · exact hp.literals s hs
    · intro q hq r hr
      cases hr
      exact hborder q hq
    · intro l hl
      rcases List.mem_append.mp hl with hl | hl
      · exact hb.levels l hl
      · exact hp.levels l hl

theorem normal_pushText {allowGroup : Bool} {bound : List Piece} (h : Normal allowGroup bound)
    {text : Text} (hne : text ≠ []) (hfree : BraceFree text) :
    Normal allowGroup (pushText bound text) := by
  have hsingle : ∀ s : Text, s ≠ [] → BraceFree s → Normal allowGroup [.literal s] := by
    intro s hs hsf
    exact normal_literal.mpr ⟨hs,hsf,by simp,normal_nil _⟩
  unfold pushText
  cases hl : bound.getLast? with
  | none =>
    rw [List.getLast?_eq_none_iff.mp hl]
    exact hsingle text hne hfree
  | some p =>
    have hb : bound = bound.dropLast++[p] := (List.dropLast_append_getLast? _ hl).symm
    cases p with
    | literal last =>
      rw [hb] at h
      obtain ⟨hinit,hlast,hborder⟩ := normal_concat.mp h
      obtain ⟨hlne,hlfree,-,-⟩ := normal_literal.mp hlast
      refine normal_concat.mpr ⟨hinit,hsingle _ (by simp [hlne]) ?_,hborder⟩
      intro c hc
      rcases List.mem_append.mp hc with hc | hc
      · exact hlfree c hc
      · exact hfree c hc
    | name => exact normal_concat.mpr ⟨h,hsingle text hne hfree,by simp [hl,Piece.isLiteral]⟩
    | level l => exact normal_concat.mpr ⟨h,hsingle text hne hfree,by simp [hl,Piece.isLiteral]⟩

theorem Name.braceFree (n : Name) : BraceFree n.text := by
  intro c hc
  have ha := n.allowed hc
  by_contra hb
  have hbrace : c = '\x7b' ∨ c = '\x7d' := by simpa [isBrace,or_iff_not_imp_left] using hb
  rcases hbrace with rfl | rfl <;> exact absurd ha (by decide)

/-- Binding merges the levels' names into the literals, and leaves the member only. -/
theorem Normal.bound {levels : List Name} {pieces : List Piece} (h : Normal true pieces)
    (hl : ∀ level, Piece.level level ∈ pieces → level.val < levels.length) :
    Normal false (boundPieces levels pieces) := by
  have hfold : ∀ bound, Normal false bound →
      Normal false (pieces.foldl (bindPiece levels) bound) := by
    have hlit := h.literals
    clear h
    induction pieces with
    | nil => exact fun _ hb => hb
    | cons p pieces ih =>
      intro bound hb
      rw [List.foldl_cons]
      apply ih (fun l hl' => hl l (by simp [hl'])) (fun s hs => hlit s (by simp [hs]))
      cases p with
      | literal text =>
        obtain ⟨hne,hfree⟩ := hlit text (by simp)
        exact normal_pushText hb hne hfree
      | name =>
        have hname : Normal false [Piece.name] :=
          (normal_placeholder (p := none)).mpr ⟨by simp [MayUse],normal_nil _⟩
        exact normal_concat.mpr ⟨hb,hname,by simp [Piece.isLiteral]⟩
      | level level =>
        let n : Name := ⟨levelText levels level,levelText_valid (hl level (by simp))⟩
        exact normal_pushText hb n.text_ne_nil n.braceFree
  exact hfold [] (normal_nil _)

/-- Pieces that are valid and as few as can be are a component of the grammar. -/
theorem ValidPieces.plainComponent {allowGroup : Bool} {pieces : List Piece}
    (h : ValidPieces pieces) (hn : Normal allowGroup pieces)
    (hfit : (∀ p, Piece.ofPlaceholder p ∉ pieces) →
      byteLen (textOf placeholderText pieces) ≤ maxNameLen) :
    PlainComponent (textOf placeholderText pieces) := by
  have hslash : '/' ∉ textOf placeholderText pieces := by
    intro hs
    rcases mem_textOf.mp hs with ⟨text,ht,hs⟩ | ⟨v,-,hs⟩
    · exact (h.literals text ht).1 hs
    · exact slash_notMem_placeholderText v hs
  have hdots : ∀ s : Text, ('\x7b' ∉ s) → isPlain s = false →
      textOf placeholderText pieces ≠ s := by
    intro s hbrace hs heq
    by_cases hall : pieces.all Piece.isLiteral = true
    · have hp := h.plain hall placeholderText
      rw [heq,hs] at hp
      cases hp
    · obtain ⟨p,hp⟩ : ∃ p, Piece.ofPlaceholder p ∈ pieces := by
        by_contra hno
        push Not at hno
        apply hall
        rw [hn.all_literal_iff]
        exact fun p hin => hno p (hn.infix_iff.mp hin)
      apply hbrace
      rw [← heq]
      exact mem_textOf.mpr (.inr ⟨p,hp,List.mem_of_head? (placeholderText_head p)⟩)
  refine ⟨hslash,hdots _ (by decide) (by decide),hdots _ (by decide) (by decide),
    hdots _ (by decide) (by decide),?_⟩
  intro hno
  exact hfit fun p hp => hno p (hn.infix_iff.mpr hp)

theorem rawPieces_eq_textOf (levels : List Name) (pieces : List Piece) :
    pieces.flatMap (rawPiece levels) = textOf (levelTexts levels) pieces := by
  induction pieces with
  | nil => rfl
  | cons p pieces ih => cases p <;> simp [ih,rawPiece,levelTexts,bindWith]

namespace Template

theorem bindLevels_raw {t u : Template} {levels : List Name} {h : t.depth ≤ levels.length}
    (hu : t.bindLevels levels h = .ok u) :
    u.raw = List.intercalate ['/'] (t.components.map (textOf (levelTexts levels))) := by
  unfold bindLevels at hu
  split at hu
  · cases hu
  · rename_i parts hb
    cases hu
    have hparts := (bindComponents_ok_iff.mp hb).2
    change List.intercalate ['/'] (parts.map Prod.snd) = _
    rw [hparts,List.map_map]
    congr 1
    apply List.map_congr_left
    intro pieces _
    exact rawPieces_eq_textOf levels pieces

/-- The bound text is a template of a static group, with the bound pieces. -/
theorem parse_bindLevels {t u : Template} {levels : List Name} {h : t.depth ≤ levels.length}
    (ht : ∀ pieces ∈ t.components, Normal true pieces) (hu : t.bindLevels levels h = .ok u) :
    parse u.raw = .ok u := by
  have hraw : u.raw = List.intercalate ['/'] (u.components.map (textOf placeholderText)) := by
    rw [bindLevels_raw hu,bindLevels_components hu,List.map_map]
    congr 1
    apply List.map_congr_left
    intro pieces _
    exact (textOf_boundPieces levels placeholderText pieces).symm
  have hfits : t.BindFits levels := bindLevels_ok_iff.mp ⟨u,hu⟩
  have hall : ∀ pieces ∈ u.components, Normal false pieces ∧
      PlainComponent (textOf placeholderText pieces) := by
    intro pieces hp
    have hvalid := u.valid pieces hp
    rw [bindLevels_components hu] at hp
    obtain ⟨qs,hqs,rfl⟩ := List.mem_map.mp hp
    have hn := (ht qs hqs).bound fun level hl => (level_lt_depth hqs hl).trans_le h
    refine ⟨hn,hvalid.plainComponent hn ?_⟩
    intro hno
    rw [textOf_boundPieces]
    rcases hfits qs hqs with hname | hfit
    · exact absurd (name_mem_boundPieces.mpr hname) (hno none)
    · rwa [rawPieces_eq_textOf] at hfit
  have hnul : nul ∉ u.raw := by
    rw [hraw]
    intro h0
    rcases Lists.mem_intercalate h0 with h0 | ⟨c,hc,h0⟩
    · exact absurd h0 (by decide)
    · obtain ⟨pieces,hp,rfl⟩ := List.mem_map.mp hc
      rcases mem_textOf.mp h0 with ⟨text,htext,h0⟩ | ⟨v,-,h0⟩
      · exact ((u.valid pieces hp).literals text htext).2 h0
      · exact nul_notMem_placeholderText v h0
  have hsplit : u.raw.splitOn '/' = u.components.map (textOf placeholderText) := by
    rw [hraw]
    apply List.splitOn_intercalate
    · intro c hc
      obtain ⟨pieces,hp,rfl⟩ := List.mem_map.mp hc
      exact (hall pieces hp).2.slash
    · obtain ⟨pieces,hp,-⟩ := u.named
      exact List.ne_nil_of_mem (List.mem_map_of_mem hp)
  exact parseInner_ok_iff.mpr ⟨rfl,hnul,hsplit,hall⟩

/-- A bound template's interpolation is the limited path with all names in it. -/
theorem interpolate_bindLevels {t u : Template} {levels : List Name}
    {h : t.depth ≤ levels.length} (hu : t.bindLevels levels h = .ok u) (name : Name) :
    u.interpolate name =
      limited (List.intercalate ['/'] (t.components.map (textOf (nameTexts levels name)))) := by
  have hdepth := bindLevels_depth hu
  have hcomps : u.components.map (textOf (memberText name)) =
      t.components.map (textOf (nameTexts levels name)) := by
    rw [bindLevels_components hu,List.map_map]
    apply List.map_congr_left
    intro pieces _
    exact textOf_boundPieces levels (memberText name) pieces
  have hslash : ∀ c ∈ u.components.map (textOf (memberText name)), '/' ∉ c := by
    intro c hc
    obtain ⟨pieces,hp,rfl⟩ := List.mem_map.mp hc
    exact ((isPlain_iff _).mp (isPlain_memberText hdepth name hp)).2.2.2.1
  have hne : u.components.map (textOf (memberText name)) ≠ [] := by
    obtain ⟨pieces,hp,-⟩ := u.named
    exact List.ne_nil_of_mem (List.mem_map_of_mem hp)
  rw [interpolate_eq hdepth,← hcomps,limited,List.splitOn_intercalate '/' hslash hne]
  rfl

/-- Binding is substitution. -/
theorem binding_is_substitution {raw : Text} {t : Template} (ht : parseForSet raw = .ok t)
    {levels : List Name} (h : t.depth ≤ levels.length) :
    ((∃ u, t.bindLevels levels h = .ok u) ↔
      ∀ c ∈ raw.splitOn '/', ¬placeholderText none <:+: c →
        byteLen (replacePlaceholders (levelTexts levels) c) ≤ maxNameLen) ∧
    ∀ u, t.bindLevels levels h = .ok u →
      u.raw = replacePlaceholders (levelTexts levels) raw ∧
      parse (replacePlaceholders (levelTexts levels) raw) = .ok u ∧
      ∀ name, u.interpolate name = limited (replacePlaceholders (nameTexts levels name) raw) := by
  obtain ⟨-,-,hsplit,hall⟩ := parseInner_ok_iff.mp ht
  have hnormal := fun pieces hp => (hall pieces hp).1
  have hraw : raw = List.intercalate ['/'] (t.components.map (textOf placeholderText)) := by
    rw [← hsplit]
    exact (List.intercalate_splitOn '/').symm
  constructor
  · rw [bindLevels_ok_iff,hsplit,List.forall_mem_map]
    apply forall₂_congr
    intro pieces hp
    have hname : placeholderText none <:+: textOf placeholderText pieces ↔ Piece.name ∈ pieces :=
      (hnormal pieces hp).infix_iff
    rw [replace_component (hnormal pieces hp),hname,rawPieces_eq_textOf,or_iff_not_imp_left]
  · intro u hu
    have htext : u.raw = replacePlaceholders (levelTexts levels) raw := by
      rw [bindLevels_raw hu,hraw,replace_path hnormal]
    refine ⟨htext,?_,?_⟩
    · rw [← htext]
      exact parse_bindLevels hnormal hu
    · intro name
      rw [interpolate_bindLevels hu,hraw,replace_path hnormal]

/-! ### Two members of one template -/

/-- Different members' paths are different, and neither lies beneath the other. -/
def Separates (t : Template) : Prop :=
  ∀ m n : Name, m ≠ n → ∀ p q, t.interpolate m = .ok p → t.interpolate n = .ok q →
    p ≠ q ∧ ¬p.splitOn '/' <+: q.splitOn '/' ∧ ¬q.splitOn '/' <+: p.splitOn '/'

/-- A component with the member's placeholder tells its members apart. -/
theorem name_eq_of_textOf {m n : Name} {pieces : List Piece} (hname : Piece.name ∈ pieces)
    (h : textOf (memberText m) pieces = textOf (memberText n) pieces) : m = n := by
  have hvar : Pattern.Symbol.var none ∈ pieces.map Piece.symbol :=
    List.mem_map.mpr ⟨.name,hname,rfl⟩
  -- The levels stand for nothing on both sides, so the lengths differ in the name's only.
  have hlen := congrArg List.length h
  rw [textOf,textOf,Pattern.length_instantiate,Pattern.length_instantiate] at hlen
  have hnone : m.text.length = n.text.length := by
    apply Pattern.length_eq_of_lengthOf_eq hvar ?_ hlen
    intro v hv
    obtain ⟨l,rfl⟩ := Option.ne_none_iff_exists'.mp hv
    rfl
  have hall : ∀ v, (memberText m v).length = (memberText n v).length := by
    intro v
    cases v with
    | none => exact hnone
    | some l => rfl
  exact Name.text_injective (Pattern.eq_of_instantiate_eq hall h hvar)

theorem separates_of_depth {t : Template} (ht : t.depth = 0) : t.Separates := by
  have hcomps : ∀ n p, t.interpolate n = .ok p →
      p.splitOn '/' = t.components.map (textOf (memberText n)) :=
    fun n p hp => ((interpolates ht n).joined p hp).2.1
  have hpre : ∀ m n : Name, m ≠ n → ¬t.components.map (textOf (memberText m)) <+:
      t.components.map (textOf (memberText n)) := by
    intro m n hmn hpre
    have heq := hpre.eq_of_length (by simp)
    obtain ⟨pieces,hp,hname⟩ := t.named
    exact hmn (name_eq_of_textOf hname (List.map_inj_left.mp heq pieces hp))
  intro m n hmn p q hp hq
  rw [hcomps m p hp,hcomps n q hq]
  refine ⟨?_,hpre m n hmn,hpre n m hmn.symm⟩
  rintro rfl
  apply hpre m n hmn
  rw [← hcomps m p hp,← hcomps n p hq]

/-- Views of one group are separate. -/
theorem views_separate :
    (∀ raw t, parse raw = .ok t → t.Separates) ∧
    (∀ raw t, parseForSet raw = .ok t → ∀ levels h u, t.bindLevels levels h = .ok u →
      u.Separates) := by
  constructor
  · intro raw t ht
    exact separates_of_depth (parse_depth ht)
  · intro raw t _ levels h u hu
    exact separates_of_depth (bindLevels_depth hu)

end Template

namespace SampleTemplates

def setTarget : Text := "\x7bgroup\x7d-\x7bname\x7d/\x7bsubgroup\x7d".toList

def other : Name := ⟨"libcurl2".toList,by decide⟩

theorem target_bound : ∃ t u h, parseForSet setTarget = .ok t ∧
    t.bindLevels [level,level] h = .ok u := by
  have hsome : ((parseForSet setTarget).toOption.any fun t =>
      if h : t.depth ≤ [level,level].length then (t.bindLevels [level,level] h).toOption.isSome
      else false) = true := by decide +kernel
  obtain ⟨t,ht,hif⟩ := (Option.any_eq_true _ _).mp hsome
  by_cases h : t.depth ≤ [level,level].length
  · rw [dif_pos h] at hif
    obtain ⟨u,hu⟩ := Option.isSome_iff_exists.mp hif
    exact ⟨t,u,h,Program.ok_of_toOption ht,Program.ok_of_toOption hu⟩
  · rw [dif_neg h] at hif
    cases hif

theorem binding_is_substitution_run : ∃ t u h, parseForSet setTarget = .ok t ∧
    t.bindLevels [level,level] h = .ok u ∧
    parse (replacePlaceholders (levelTexts [level,level]) setTarget) = .ok u ∧
    u.interpolate member =
      limited (replacePlaceholders (nameTexts [level,level] member) setTarget) := by
  obtain ⟨t,u,h,ht,hu⟩ := target_bound
  obtain ⟨-,hsub⟩ := binding_is_substitution ht h
  obtain ⟨-,hparse,hinter⟩ := hsub u hu
  exact ⟨t,u,h,ht,hu,hparse,hinter member⟩

theorem static_paths : ((parse static).toOption.any fun t =>
    (t.interpolate member).toOption.isSome && (t.interpolate other).toOption.isSome) = true := by
  decide +kernel

theorem views_separate_run : (∃ t p q, parse static = .ok t ∧ t.interpolate member = .ok p ∧
      t.interpolate other = .ok q ∧ ¬p.splitOn '/' <+: q.splitOn '/') ∧
    ∃ t u h, parseForSet setTarget = .ok t ∧ t.bindLevels [level,level] h = .ok u ∧
      u.Separates := by
  constructor
  · obtain ⟨t,ht,hpaths⟩ := (Option.any_eq_true _ _).mp static_paths
    obtain ⟨hp,hq⟩ := Bool.and_eq_true_iff.mp hpaths
    obtain ⟨p,hp⟩ := Option.isSome_iff_exists.mp hp
    obtain ⟨q,hq⟩ := Option.isSome_iff_exists.mp hq
    have hparse := Program.ok_of_toOption ht
    have hp' := Program.ok_of_toOption hp
    have hq' := Program.ok_of_toOption hq
    have hsep := views_separate.1 static t hparse member other (by decide) p q hp' hq'
    exact ⟨t,p,q,hparse,hp',hq',hsep.2.1⟩
  · obtain ⟨t,u,h,ht,hu⟩ := target_bound
    exact ⟨t,u,h,ht,hu,views_separate.2 setTarget t ht _ h u hu⟩

end SampleTemplates
end Byssus
