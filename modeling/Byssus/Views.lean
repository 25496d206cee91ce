import Byssus.Config
import Byssus.Library.Program

/-! When the groups of a set have views of their own. -/
namespace Byssus

open Pattern

/-- What the placeholders of a set's templates stand for at a member of a group. -/
def assign (path : List Name) (name : Name) : Placeholder → Text :=
  bindWith path (Template.memberText name)

/-- The bytes of a component, from the lengths of what stands for the placeholders. -/
def componentBytes (len : Placeholder → ℕ) (pieces : List Piece) : ℕ :=
  (pieces.map fun
    | .literal text => byteLen text
    | .name => len none
    | .level level => len (some level)).sum

/-- The bytes of a path. -/
def pathBytes (len : Placeholder → ℕ) (components : List (List Piece)) : ℕ :=
  (components.map (componentBytes len)).sum+(components.length-1)

namespace GroupSetConfig

/-- The placeholders that the templates of the set may use. -/
def Uses (set : GroupSetConfig) (v : Placeholder) : Prop :=
  ∀ level, v = some level → level.val < set.depth

/-- Names of these lengths pass the limits on names, components and paths. -/
structure Fits (set : GroupSetConfig) (len : Placeholder → ℕ) : Prop where
  names : ∀ v, set.Uses v → 0 < len v ∧ len v ≤ maxNameLen
  source : ∀ pieces ∈ set.source.components, Piece.name ∈ pieces ∨
    componentBytes len pieces ≤ maxNameLen
  target : ∀ pieces ∈ set.target.components, componentBytes len pieces ≤ maxNameLen
  path : pathBytes len set.target.components ≤ maxPathLen

/-- The characters a name may have at a position. -/
def MayStand (_ : Placeholder ⊕ Placeholder) (i : ℕ) (c : Char) : Prop :=
  isAllowedChar c = true ∧ (i = 0 → c ≠ '.')

/-- The target components of one group and member laid over those of another. -/
def overlay (set : GroupSetConfig) : List (Equation (Placeholder ⊕ Placeholder) Char) :=
  set.target.components.map fun pieces =>
    ((pieces.map Piece.symbol).map (Symbol.rename .inl),
      (pieces.map Piece.symbol).map (Symbol.rename .inr))

/-- No two choices of lengths that differ at a level let the target be laid over itself:
the components differ in length, or some position would need two different literal
characters, or a literal character that a name cannot have there. -/
def KeepsApart (set : GroupSetConfig) : Prop :=
  ∀ len len', set.Fits len → set.Fits len' →
    (∃ level : Fin maxSetDepth, level.val < set.depth ∧ len (some level) ≠ len' (some level)) →
    ¬Consistent MayStand (Sum.elim len len') set.overlay

end GroupSetConfig

theorem textOf_congr {σ τ : Placeholder → Text} {pieces : List Piece}
    (h : ∀ v, Piece.ofPlaceholder v ∈ pieces → σ v = τ v) : textOf σ pieces = textOf τ pieces := by
  induction pieces with
  | nil => rfl
  | cons p pieces ih =>
    have hrest := ih fun v hv => h v (List.mem_cons_of_mem _ hv)
    cases p with
    | literal text => simp [hrest]
    | name => simp [hrest,h none (by simp)]
    | level level => simp [hrest,h (some level) (by simp)]

theorem byteLen_textOf {σ : Placeholder → Text} (h : ∀ v, byteLen (σ v) = (σ v).length)
    (pieces : List Piece) : byteLen (textOf σ pieces) = componentBytes (fun v => (σ v).length) pieces := by
  induction pieces with
  | nil => rfl
  | cons p pieces ih =>
    simp only [componentBytes,List.map_cons,List.sum_cons] at ih ⊢
    cases p <;> simp [ih,h]

theorem byteLen_intercalate (texts : List Text) :
    byteLen (List.intercalate ['/'] texts) = (texts.map byteLen).sum+(texts.length-1) := by
  induction texts using List.reverseRecOn with
  | nil => rfl
  | append_singleton texts text ih =>
    rw [Template.byteLen_intercalate_concat,ih]
    cases texts with
    | nil => simp
    | cons t ts =>
      simp
      omega

theorem byteLen_path {σ : Placeholder → Text} (h : ∀ v, byteLen (σ v) = (σ v).length)
    (t : Template) : byteLen (t.path σ) = pathBytes (fun v => (σ v).length) t.components := by
  simp [Template.path,byteLen_intercalate,pathBytes,Function.comp_def,byteLen_textOf h]

theorem flatMap_rawPiece {levels : List Name} {pieces : List Piece} (name : Name)
    (h : Piece.name ∉ pieces) : pieces.flatMap (rawPiece levels) = textOf (assign levels name) pieces := by
  induction pieces with
  | nil => rfl
  | cons p pieces ih =>
    simp only [List.mem_cons,not_or] at h
    rw [List.flatMap_cons,ih h.2]
    cases p with
    | literal text => rfl
    | name => exact absurd rfl h.1
    | level level => rfl

theorem levelText_eq {path : List Name} {level : Fin maxSetDepth} (h : level.val < path.length) :
    levelText path level = path[level.val].text := by
  simp [levelText,h]

theorem byteLen_assign (path : List Name) (name : Name) (v : Placeholder) :
    byteLen (assign path name v) = (assign path name v).length := by
  cases v with
  | none => exact name.byteLen_text
  | some level =>
    simp only [assign,bindWith,levelText]
    cases path[level.val]? with
    | none => rfl
    | some n => exact n.byteLen_text

namespace GroupSetConfig

variable {set : GroupSetConfig}

theorem uses_of_mem {pieces : List Piece} {v : Placeholder} {t : Template}
    (ht : t.depth ≤ set.depth) (hp : pieces ∈ t.components) (hv : Piece.ofPlaceholder v ∈ pieces) :
    set.Uses v := by
  intro level hl
  subst hl
  have hlt := Template.level_lt_depth hp hv
  omega

theorem assign_valid {path : List Name} (h : path.length = set.depth) (name : Name)
    {v : Placeholder} (hv : set.Uses v) : ValidName (assign path name v) := by
  cases v with
  | none => exact name.valid
  | some level =>
    have hlt : level.val < path.length := by
      rw [h]
      exact hv level rfl
    exact levelText_valid hlt

/-- The lengths of the names of a group and a member. -/
def lengths (path : List Name) (name : Name) (v : Placeholder) : ℕ := (assign path name v).length

/-- A member of a group has a target path where the lengths of its names fit, and then it
is the target with the names put in. -/
theorem interpolate_iff {path : List Name} (h : path.length = set.depth) {name : Name} {p : Text} :
    (∃ g, set.group path h = .ok g ∧ g.target.interpolate name = .ok p) ↔
      set.Fits (lengths path name) ∧ p = set.target.path (assign path name) := by
  have hbytes : ∀ pieces, byteLen (textOf (assign path name) pieces) =
      componentBytes (lengths path name) pieces :=
    byteLen_textOf (byteLen_assign path name)
  have hbind : ∀ t : Template, t.BindFits path ↔ ∀ pieces ∈ t.components, Piece.name ∈ pieces ∨
      componentBytes (lengths path name) pieces ≤ maxNameLen := by
    intro t
    apply forall₂_congr
    intro pieces _
    by_cases hn : Piece.name ∈ pieces
    · simp [hn]
    · rw [flatMap_rawPiece name hn,hbytes]
  have hpath : byteLen (set.target.path (assign path name)) =
      pathBytes (lengths path name) set.target.components :=
    byteLen_path (byteLen_assign path name) set.target
  -- the components of the bound target are those of the set's with the levels put in
  have htarget : ∀ g, set.group path h = .ok g → (g.target.interpolate name = .ok p ↔
      (∀ pieces ∈ set.target.components, componentBytes (lengths path name) pieces ≤ maxNameLen) ∧
      byteLen p ≤ maxPathLen ∧ p = set.target.path (assign path name)) := by
    intro g hg
    rw [Template.interpolate_ok_iff g.targetBound,
      Template.bindLevels_components (group_ok hg).2.1]
    have htext : ∀ pieces, textOf (Template.memberText name) (boundPieces path pieces) =
        textOf (assign path name) pieces :=
      fun pieces => textOf_boundPieces path (Template.memberText name) pieces
    simp only [Template.path,Template.bindLevels_components (group_ok hg).2.1,List.map_map,
      Function.comp_def,htext,List.forall_mem_map,hbytes]
  constructor
  · intro hex
    obtain ⟨g,hg,hp⟩ := hex
    obtain ⟨hfit,hlen,hp⟩ := (htarget g hg).mp hp
    have hsource := (group_ok_iff.mp ⟨g,hg⟩).1
    refine ⟨⟨?_,(hbind _).mp hsource,hfit,?_⟩,hp⟩
    · intro v hv
      have hvalid := assign_valid h name hv
      exact ⟨List.length_pos_of_ne_nil hvalid.1,hvalid.2.1⟩
    · rw [hp,hpath] at hlen
      exact hlen
  · intro hboth
    obtain ⟨hfit,hp⟩ := hboth
    obtain ⟨g,hg⟩ := (group_ok_iff (h := h)).mpr ⟨(hbind _).mpr hfit.source,(hbind _).mpr
      fun pieces hpieces => .inr (hfit.target pieces hpieces)⟩
    refine ⟨g,hg,(htarget g hg).mpr ⟨hfit.target,?_,hp⟩⟩
    rw [hp,hpath]
    exact hfit.path

/-- A placeholder the set uses occurs in its target. -/
theorem occurs (set : GroupSetConfig) {v : Placeholder} (hv : set.Uses v) :
    ∃ pieces ∈ set.target.components, Piece.ofPlaceholder v ∈ pieces := by
  cases v with
  | none => exact set.target.named
  | some level => exact Template.hasLevel_iff.mp (set.levels level (hv level rfl))

theorem symbol_mem {pieces : List Piece} {v : Placeholder} (h : Piece.ofPlaceholder v ∈ pieces) :
    Symbol.var v ∈ pieces.map Piece.symbol := by
  cases v with
  | none => exact List.mem_map_of_mem (f := Piece.symbol) h
  | some level => exact List.mem_map_of_mem (f := Piece.symbol) h

/-- Names make a path of components without slashes. -/
theorem slash_notMem_textOf {σ : Placeholder → Text} (hσ : ∀ v, set.Uses v → ValidName (σ v))
    {pieces : List Piece} (hp : pieces ∈ set.target.components) : '/' ∉ textOf σ pieces := by
  have hplain := (set.target.valid pieces hp).isPlain_textOf fun v hv =>
    hσ v (uses_of_mem set.target_depth_le hp hv)
  exact ((isPlain_iff _).mp hplain).2.2.2.1

theorem path_eq_iff {σ τ : Placeholder → Text} (hσ : ∀ v, set.Uses v → ValidName (σ v))
    (hτ : ∀ v, set.Uses v → ValidName (τ v)) :
    set.target.path σ = set.target.path τ ↔
      ∀ pieces ∈ set.target.components, textOf σ pieces = textOf τ pieces := by
  obtain ⟨pieces,hp,-⟩ := set.target.named
  have hne : ∀ υ : Placeholder → Text, set.target.components.map (textOf υ) ≠ [] := by
    intro υ h
    rw [List.map_eq_nil_iff.mp h] at hp
    cases hp
  have hsplit : ∀ υ : Placeholder → Text, (∀ v, set.Uses v → ValidName (υ v)) →
      (set.target.path υ).splitOn '/' = set.target.components.map (textOf υ) := by
    intro υ hυ
    apply List.splitOn_intercalate '/' _ (hne υ)
    intro text ht
    obtain ⟨qs,hqs,rfl⟩ := List.mem_map.mp ht
    exact slash_notMem_textOf hυ hqs
  constructor
  · intro h
    have hmap : set.target.components.map (textOf σ) = set.target.components.map (textOf τ) := by
      rw [← hsplit σ hσ,← hsplit τ hτ,h]
    exact List.map_inj_left.mp hmap
  · intro h
    rw [Template.path,Template.path,List.map_congr_left h]

/-- Equal targets of names of equal lengths at every level come from equal names. -/
theorem assign_inj {σ τ : Placeholder → Text}
    (hlen : ∀ v, v ≠ none → (σ v).length = (τ v).length)
    (htext : ∀ pieces ∈ set.target.components, textOf σ pieces = textOf τ pieces)
    {v : Placeholder} (hv : set.Uses v) : σ v = τ v := by
  have hall : ∀ w, (σ w).length = (τ w).length := by
    intro w
    by_cases hw : w = none
    · subst hw
      obtain ⟨pieces,hp,hn⟩ := set.target.named
      apply length_eq_of_lengthOf_eq (symbol_mem (v := none) hn) hlen
      rw [← length_instantiate σ,← length_instantiate τ]
      exact congrArg List.length (htext pieces hp)
    · exact hlen w hw
  obtain ⟨pieces,hp,hmem⟩ := set.occurs hv
  exact eq_of_instantiate_eq hall (htext pieces hp) (symbol_mem hmem)

/-- Two members with one target path solve the system that lays the target over itself. -/
theorem solves_overlay {σ τ : Placeholder → Text} (hσ : ∀ v, ValidName (σ v) ∨ σ v = [])
    (hτ : ∀ v, ValidName (τ v) ∨ τ v = [])
    (htext : ∀ pieces ∈ set.target.components, textOf σ pieces = textOf τ pieces) :
    Solves MayStand (Sum.elim (fun v => (σ v).length) fun v => (τ v).length) set.overlay
      (Sum.elim σ τ) where
  length := by
    intro v
    cases v <;> rfl
  allowed := by
    have hname : ∀ (s : Text) w i c, ValidName s ∨ s = [] → s[i]? = some c → MayStand w i c := by
      intro s w i c hs hc
      rcases hs with hs | rfl
      · refine ⟨hs.2.2.2 c (List.mem_of_getElem? hc),?_⟩
        intro hi hdot
        subst hi hdot
        rw [← List.head?_eq_getElem?] at hc
        exact hs.2.2.1 hc
      · cases hc
    intro v i c hc
    cases v with
    | inl v => exact hname _ _ i c (hσ v) hc
    | inr v => exact hname _ _ i c (hτ v) hc
  equations := by
    intro e he
    obtain ⟨pieces,hp,rfl⟩ := List.mem_map.mp he
    simp only [instantiate_rename]
    exact htext pieces hp

/-- Names from a solution: its words at the placeholders the set uses. -/
theorem names_of_solves {len len' : Placeholder → ℕ} {ρ : Placeholder ⊕ Placeholder → Text}
    (h : Solves MayStand (Sum.elim len len') set.overlay ρ) {w : Placeholder ⊕ Placeholder}
    (hw : 0 < Sum.elim len len' w ∧ Sum.elim len len' w ≤ maxNameLen) : ValidName (ρ w) := by
  have hlen := h.length w
  refine ⟨?_,?_,?_,?_⟩
  · intro hn
    rw [hn] at hlen
    simp only [List.length_nil] at hlen
    omega
  · omega
  · intro hd
    rw [List.head?_eq_getElem?] at hd
    exact (h.allowed w 0 '.' hd).2 rfl rfl
  · intro c hc
    obtain ⟨i,hi,rfl⟩ := List.getElem_of_mem hc
    exact (h.allowed w i _ (List.getElem?_eq_getElem hi)).1

/-- The group and the member whose names are given texts. -/
theorem exists_names {σ : Placeholder → Text} (hσ : ∀ v, set.Uses v → ValidName (σ v)) :
    ∃ (path : List Name) (_ : path.length = set.depth) (name : Name),
      ∀ v, set.Uses v → assign path name v = σ v := by
  have hlevel : ∀ i : Fin set.depth, ValidName (σ (some ⟨i,by
      have := set.depth_le_maxSetDepth
      omega⟩)) := by
    intro i
    apply hσ
    intro level hl
    cases hl
    exact i.isLt
  refine ⟨List.ofFn fun i => ⟨_,hlevel i⟩,by simp,⟨σ none,hσ none fun _ h => by cases h⟩,?_⟩
  intro v hv
  cases v with
  | none => rfl
  | some level =>
    have hlt := hv level rfl
    change levelText _ level = _
    rw [levelText_eq (by simpa using hlt)]
    simp

theorem componentBytes_congr {len len' : Placeholder → ℕ} {pieces : List Piece}
    (h : ∀ v, Piece.ofPlaceholder v ∈ pieces → len v = len' v) :
    componentBytes len pieces = componentBytes len' pieces := by
  unfold componentBytes
  congr 1
  apply List.map_congr_left
  intro p hp
  cases p with
  | literal text => rfl
  | name => exact h none hp
  | level level => exact h (some level) hp

theorem Fits.congr {len len' : Placeholder → ℕ} (h : set.Fits len)
    (heq : ∀ v, set.Uses v → len' v = len v) : set.Fits len' := by
  have hbytes : ∀ t : Template, t.depth ≤ set.depth → ∀ pieces ∈ t.components,
      componentBytes len' pieces = componentBytes len pieces := by
    intro t ht pieces hp
    exact componentBytes_congr fun v hv => heq v (uses_of_mem ht hp hv)
  constructor
  · intro v hv
    rw [heq v hv]
    exact h.names v hv
  · intro pieces hp
    rw [hbytes _ set.source_depth_le pieces hp]
    exact h.source pieces hp
  · intro pieces hp
    rw [hbytes _ set.target_depth_le pieces hp]
    exact h.target pieces hp
  · have hpath := h.path
    rwa [pathBytes,List.map_congr_left (hbytes _ set.target_depth_le)]

/-- The groups of a set have separate views exactly if its target keeps them apart. -/
theorem separate_views_iff (set : GroupSetConfig) :
    (∀ g₁ g₂ (h₁ : g₁.length = set.depth) (h₂ : g₂.length = set.depth) c₁ c₂ n₁ n₂ t₁ t₂,
      g₁ ≠ g₂ → set.group g₁ h₁ = .ok c₁ → set.group g₂ h₂ = .ok c₂ →
      c₁.target.interpolate n₁ = .ok t₁ → c₂.target.interpolate n₂ = .ok t₂ → t₁ ≠ t₂) ↔
    set.KeepsApart := by
  constructor
  · intro hsep len len' hfit hfit' hdiff hcons
    obtain ⟨ρ,hρ⟩ := (solvable_iff (x := 'a') fun _ _ => ⟨by decide,fun _ => by decide⟩).mpr hcons
    have hleft : ∀ v, set.Uses v → ValidName (ρ (.inl v)) := fun v hv =>
      names_of_solves hρ (hfit.names v hv)
    have hright : ∀ v, set.Uses v → ValidName (ρ (.inr v)) := fun v hv =>
      names_of_solves hρ (hfit'.names v hv)
    obtain ⟨g₁,h₁,n₁,hs₁⟩ := exists_names hleft
    obtain ⟨g₂,h₂,n₂,hs₂⟩ := exists_names hright
    have hne : g₁ ≠ g₂ := by
      intro heq
      obtain ⟨level,hlevel,hd⟩ := hdiff
      have huses : set.Uses (some level) := by
        intro l hl
        cases hl
        exact hlevel
      apply hd
      have hlen := hρ.length (.inl (some level))
      have hlen' := hρ.length (.inr (some level))
      rw [← hs₁ _ huses] at hlen
      rw [← hs₂ _ huses] at hlen'
      simp only [Sum.elim_inl,Sum.elim_inr] at hlen hlen'
      rw [← hlen,← hlen',heq]
      rfl
    -- texts of the lengths that fit, and equal targets
    have hfits : ∀ {l : Placeholder → ℕ} {path name} {side : Placeholder → Placeholder ⊕ Placeholder},
        set.Fits l → (∀ v, Sum.elim len len' (side v) = l v) →
        (∀ v, set.Uses v → assign path name v = ρ (side v)) → set.Fits (lengths path name) := by
      intro l path name side hl hside hs
      apply hl.congr
      intro v hv
      rw [lengths,hs v hv,hρ.length,hside]
    have htext : set.target.path (assign g₁ n₁) = set.target.path (assign g₂ n₂) := by
      rw [path_eq_iff (fun v => assign_valid h₁ n₁) (fun v => assign_valid h₂ n₂)]
      intro pieces hp
      have heq := hρ.equations _ (List.mem_map_of_mem hp)
      simp only [instantiate_rename] at heq
      have hl : textOf (assign g₁ n₁) pieces = textOf (ρ ∘ .inl) pieces :=
        textOf_congr fun v hv => hs₁ v (uses_of_mem set.target_depth_le hp hv)
      have hr : textOf (assign g₂ n₂) pieces = textOf (ρ ∘ .inr) pieces :=
        textOf_congr fun v hv => hs₂ v (uses_of_mem set.target_depth_le hp hv)
      rw [hl,hr]
      exact heq
    obtain ⟨c₁,hc₁,ht₁⟩ := (interpolate_iff h₁).mpr ⟨hfits hfit (fun _ => rfl) hs₁,rfl⟩
    obtain ⟨c₂,hc₂,ht₂⟩ := (interpolate_iff h₂).mpr ⟨hfits hfit' (fun _ => rfl) hs₂,rfl⟩
    exact hsep g₁ g₂ h₁ h₂ c₁ c₂ n₁ n₂ _ _ hne hc₁ hc₂ ht₁ ht₂ htext
  · intro hkeep g₁ g₂ h₁ h₂ c₁ c₂ n₁ n₂ t₁ t₂ hne hg₁ hg₂ ht₁ ht₂ heq
    obtain ⟨hfit₁,hp₁⟩ := (interpolate_iff h₁).mp ⟨c₁,hg₁,ht₁⟩
    obtain ⟨hfit₂,hp₂⟩ := (interpolate_iff h₂).mp ⟨c₂,hg₂,ht₂⟩
    have hvalid : ∀ {path : List Name} (_ : path.length = set.depth) (name : Name) v,
        ValidName (assign path name v) ∨ assign path name v = [] := by
      intro path _ name v
      cases v with
      | none => exact .inl name.valid
      | some level =>
        simp only [assign,bindWith,levelText]
        cases path[level.val]? with
        | none => exact .inr rfl
        | some n => exact .inl n.valid
    rw [hp₁,hp₂,path_eq_iff (fun v => assign_valid h₁ n₁) (fun v => assign_valid h₂ n₂)] at heq
    have hcons := (solves_overlay (hvalid h₁ n₁) (hvalid h₂ n₂) heq).consistent
    have hlevels : ∀ v, v ≠ none → (assign g₁ n₁ v).length = (assign g₂ n₂ v).length := by
      intro v hv
      by_contra hd
      cases v with
      | none => exact hv rfl
      | some level =>
        by_cases hl : level.val < set.depth
        · exact hkeep _ _ hfit₁ hfit₂ ⟨level,hl,hd⟩ hcons
        · apply hd
          simp only [assign,bindWith,levelText]
          rw [List.getElem?_eq_none (by omega),List.getElem?_eq_none (by omega)]
    apply hne
    apply List.ext_getElem
    · rw [h₁,h₂]
    · intro i hi hi'
      apply Name.text_injective
      have hmax := set.depth_le_maxSetDepth
      have huses : set.Uses (some ⟨i,by omega⟩) := by
        intro level hl
        cases hl
        rwa [← h₁]
      have htext := assign_inj hlevels heq huses
      change levelText g₁ ⟨i,_⟩ = levelText g₂ ⟨i,_⟩ at htext
      rwa [levelText_eq hi,levelText_eq hi'] at htext

/-- A set whose levels each have a component without other placeholders keeps its groups
apart. -/
theorem keepsApart_of_alone (h : ∀ level : Fin maxSetDepth, level.val < set.depth →
    ∃ pieces ∈ set.target.components, Piece.level level ∈ pieces ∧
      ∀ v, Piece.ofPlaceholder v ∈ pieces → v = some level) : set.KeepsApart := by
  intro len len' _ _ hdiff hcons
  obtain ⟨level,hl,hne⟩ := hdiff
  obtain ⟨pieces,hp,hmem,honly⟩ := h level hl
  have hlen := hcons.lengths _ (List.mem_map_of_mem hp)
  rw [length_cells,length_cells,lengthOf_rename,lengthOf_rename] at hlen
  have hcongr : lengthOf len' (pieces.map Piece.symbol) =
      lengthOf (fun v => if v = some level then len' v else len v) (pieces.map Piece.symbol) := by
    apply lengthOf_congr
    intro v hv
    obtain ⟨p,hpm,hpv⟩ := List.mem_map.mp hv
    have hof : Piece.ofPlaceholder v ∈ pieces := by
      cases p with
      | literal text => cases hpv
      | name => cases hpv; exact hpm
      | level l => cases hpv; exact hpm
    simp [honly v hof]
  have heq := length_eq_of_lengthOf_eq (symbol_mem (v := some level) hmem)
    (fun v hv => by simp [hv]) (hlen.trans hcongr)
  apply hne
  simpa using heq

end GroupSetConfig

/-! A set whose target joins the group and the member with a character of names. -/
namespace SharedView

def raw : RawGroupSet where
  membershipRoot := "/members".toList
  sourceRoot := "/data".toList
  source := "\x7bname\x7d".toList
  targetRoot := "/views".toList
  target := "\x7bgroup\x7d-\x7bname\x7d".toList
  readOnly := none
  noexec := none
  nosymfollow := none

def name (s : String) (h : ValidName s.toList) : Name := ⟨s.toList,h⟩

theorem valid_set : ValidName "set".toList := by decide
theorem valid_a : ValidName "a".toList := by decide
theorem valid_c : ValidName "c".toList := by decide

def setName : Name := name "set" valid_set
def a : Name := name "a" valid_a
def ab : Name := name "a-b" (by decide)
def bc : Name := name "b-c" (by decide)
def c : Name := name "c" valid_c

def set : GroupSetConfig := (validateGroupSet setName raw []).1.get (by decide +kernel)

theorem length_eq (group : Name) : [group].length = set.depth := by
  have hd : set.depth = 1 := by decide +kernel
  rw [hd]
  rfl

def config (group : Name) : Except InterpolateError GroupConfig :=
  set.group [group] (length_eq group)

def groupA : GroupConfig := (config a).toOption.get (by decide +kernel)
def groupAB : GroupConfig := (config ab).toOption.get (by decide +kernel)

/-- The set is accepted, and the member `b-c` of its group `a` has the target of the
member `c` of its group `a-b`. -/
theorem shared_view : validateGroupSet setName raw [] = (some set,[]) ∧
    ∃ (h₁ : [a].length = set.depth) (h₂ : [ab].length = set.depth) (c₁ c₂ : GroupConfig),
      [a] ≠ [ab] ∧ set.group [a] h₁ = .ok c₁ ∧ set.group [ab] h₂ = .ok c₂ ∧
      c₁.target.interpolate bc = .ok "a-b-c".toList ∧
      c₂.target.interpolate c = .ok "a-b-c".toList := by
  have hissues : (validateGroupSet setName raw []).2 = [] := by decide +kernel
  refine ⟨?_,length_eq a,length_eq ab,groupA,groupAB,by decide,?_,?_,?_,?_⟩
  · rw [← hissues,set,Option.some_get]
  · exact Program.ok_of_toOption (Option.some_get _).symm
  · exact Program.ok_of_toOption (Option.some_get _).symm
  · exact Program.ok_of_toOption (by decide +kernel)
  · exact Program.ok_of_toOption (by decide +kernel)

end SharedView
end Byssus
