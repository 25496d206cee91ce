import Byssus.Config
import Byssus.State
import Byssus.Library.Program

/-! What binding and interpolating a template can return.
The loops are written once more with their panics; where the configuration was accepted
they are the ones of the template, and the names add no component to its text. -/
namespace Byssus
open Template

/-- `bind_levels` on the pieces of a component: none where `levels[level]` panics. -/
def bindPieceOrPanic (levels : List Name) (bound : List Piece × Text) :
    Piece → Option (List Piece × Text)
  | .name => some (bound.1++[.name],bound.2++placeholderText none)
  | .literal text => some (pushText bound.1 text,bound.2++text)
  | .level level => (levels[level.val]?).map fun n => (pushText bound.1 n.text,bound.2++n.text)

/-- The loop over the components in `bind_levels`: none where it panics. -/
def bindOrPanic (levels : List Name) :
    List (List Piece) → Option (Except InterpolateError (List (List Piece × Text)))
  | [] => some (.ok [])
  | pieces::rest =>
    match pieces.foldlM (bindPieceOrPanic levels) ([],[]) with
    | none => none
    | some (bound,raw) =>
      if Piece.name ∉ bound ∧ byteLen raw > maxNameLen then
        some (.error (.componentTooLong (byteLen raw)))
      else match bindOrPanic levels rest with
        | none => none
        | some (.error e) => some (.error e)
        | some (.ok parts) => some (.ok ((bound,raw)::parts))

/-- The loop over the pieces in `components`: none at `unreachable!`. -/
def namePieceOrPanic (name : Name) (component : Text) : Piece → Option Text
  | .literal text => some (component++text)
  | .name => some (component++name.text)
  | .level _ => none

/-- The loop of `components`: none where it panics. -/
def componentsOrPanic (name : Name) :
    List (List Piece) → List Text → ℕ → Option (Except InterpolateError (List Text × ℕ))
  | [], out, total => some (.ok (out,total))
  | pieces::rest, out, total =>
    match pieces.foldlM (namePieceOrPanic name) [] with
    | none => none
    | some component =>
      if byteLen component > maxNameLen then some (.error (.componentTooLong (byteLen component)))
      else if component = [] ∨ component = ['.'] ∨ component = ['.','.'] ∨ '/' ∈ component then
        some (.error (.invalidComponent component))
      else componentsOrPanic name rest (out++[component])
        (total+byteLen component+if out.isEmpty then 0 else 1)

namespace Template

/-- `Template::bind_levels` for any levels: the parts and `raw`, or none where it panics. -/
def bindLevelsOrPanic (t : Template) (levels : List Name) :
    Option (Except InterpolateError (List (List Piece) × Text)) :=
  (bindOrPanic levels t.components).map (Except.map fun parts =>
    (parts.map Prod.fst,List.intercalate ['/'] (parts.map Prod.snd)))

/-- `Template::interpolate` for any template: none where it panics. -/
def interpolateOrPanic (t : Template) (name : Name) : Option (Except InterpolateError Text) :=
  (componentsOrPanic name t.components [] 0).map fun r =>
    match r with
    | .error e => .error e
    | .ok (out,total) =>
      if total > maxPathLen then .error (.pathTooLong total)
      else .ok (List.intercalate ['/'] out)

end Template

theorem foldlM_bindPiece {levels : List Name} {pieces : List Piece}
    (h : ∀ level, Piece.level level ∈ pieces → level.val < levels.length)
    (bound : List Piece × Text) :
    pieces.foldlM (bindPieceOrPanic levels) bound =
      some (pieces.foldl (bindPiece levels) bound.1,bound.2++pieces.flatMap (rawPiece levels)) := by
  induction pieces generalizing bound with
  | nil => simp
  | cons p pieces ih =>
    have hrest := ih fun level hl => h level (by simp [hl])
    rw [List.foldlM_cons,List.foldl_cons,List.flatMap_cons,← List.append_assoc]
    cases p with
    | literal text => exact hrest _
    | name => exact hrest _
    | level level =>
      have hlt := h level (by simp)
      have hlevel : bindPieceOrPanic levels bound (.level level) =
          some (bindPiece levels bound.1 (.level level),bound.2++rawPiece levels (.level level)) := by
        simp [bindPieceOrPanic,bindPiece,rawPiece,levelText,List.getElem?_eq_getElem hlt]
      rw [hlevel]
      exact hrest _

theorem bindOrPanic_eq {levels : List Name} {components : List (List Piece)}
    (h : ∀ pieces ∈ components, ∀ level, Piece.level level ∈ pieces → level.val < levels.length) :
    bindOrPanic levels components = some (bindComponents levels components) := by
  induction components with
  | nil => rfl
  | cons pieces rest ih =>
    have hrest := ih fun q hq => h q (by simp [hq])
    simp only [bindOrPanic,bindComponents,foldlM_bindPiece (h pieces (by simp)),List.nil_append,
      hrest]
    by_cases hif : Piece.name ∉ pieces.foldl (bindPiece levels) [] ∧
        byteLen (pieces.flatMap (rawPiece levels)) > maxNameLen
    · have hpart : bindComponent levels pieces = .error _ := if_pos hif
      rw [if_pos hif,hpart]
    · have hpart : bindComponent levels pieces = .ok _ := if_neg hif
      rw [if_neg hif,hpart]
      cases bindComponents levels rest <;> rfl

theorem foldlM_namePiece {name : Name} {pieces : List Piece}
    (h : ∀ level, Piece.level level ∉ pieces) (component : Text) :
    pieces.foldlM (namePieceOrPanic name) component =
      some (pieces.foldl (namePiece name) component) := by
  induction pieces generalizing component with
  | nil => rfl
  | cons p pieces ih =>
    have hrest := ih fun level hl => h level (by simp [hl])
    rw [List.foldlM_cons,List.foldl_cons]
    cases p with
    | literal text => exact hrest _
    | name => exact hrest _
    | level level => exact absurd (by simp) (h level)

theorem componentsOrPanic_eq {name : Name} {components : List (List Piece)}
    (h : ∀ pieces ∈ components, ∀ level, Piece.level level ∉ pieces) (out : List Text)
    (total : ℕ) : componentsOrPanic name components out total =
      some (componentsLoop name components out total) := by
  induction components generalizing out total with
  | nil => rfl
  | cons pieces rest ih =>
    have hrest := ih fun q hq => h q (by simp [hq])
    simp only [componentsOrPanic,componentsLoop,foldlM_namePiece (h pieces (by simp)),hrest]
    split_ifs <;> rfl

namespace Template

/-- `bind_levels` does not panic where there are as many levels as the template refers to. -/
theorem bindLevelsOrPanic_eq {t : Template} {levels : List Name} (h : t.depth ≤ levels.length) :
    t.bindLevelsOrPanic levels = some ((t.bindLevels levels h).map fun u => (u.components,u.raw)) := by
  unfold bindLevelsOrPanic
  rw [bindOrPanic_eq fun pieces hp level hl => (level_lt_depth hp hl).trans_le h]
  simp only [Option.map_some,Option.some.injEq]
  unfold bindLevels
  split
  · rename_i e hb
    exact congrArg (Except.map _) hb
  · rename_i parts hb
    exact congrArg (Except.map _) hb

/-- `interpolate` does not panic where no level is left. -/
theorem interpolateOrPanic_eq {t : Template} (ht : t.depth = 0) (name : Name) :
    t.interpolateOrPanic name = some (t.interpolate name) := by
  have hbound : ∀ pieces ∈ t.components, ∀ level, Piece.level level ∉ pieces := by
    intro pieces hp level hl
    have hlt := level_lt_depth hp hl
    omega
  unfold interpolateOrPanic interpolate interpolatedComponents
  rw [componentsOrPanic_eq hbound]
  cases componentsLoop name t.components [] 0 with
  | error e => rfl
  | ok r =>
    simp only [Option.map_some,Option.some.injEq]
    split_ifs <;> rfl

end Template

/-- The text of a piece with names for its placeholder. -/
def substitute (levels : List Name) (name : Name) : Piece → Text
  | .literal text => text
  | .name => name.text
  | .level level => levelText levels level

/-- The components of the template, each with the names substituted literally. -/
def Template.substituted (t : Template) (levels : List Name) (name : Name) : List Text :=
  t.components.map fun pieces => pieces.flatMap (substitute levels name)

/-- What interpolation returns when it is given the components of a path: they are joined
unless one of them, or else the path, is too long. -/
structure Interpolates (components : List Text) (result : Except InterpolateError Text) : Prop where
  plain : ∀ component, result ≠ .error (.invalidComponent component)
  component : (∃ len, result = .error (.componentTooLong len)) ↔
    ∃ c ∈ components, maxNameLen < byteLen c
  path : (∃ len, result = .error (.pathTooLong len)) ↔
    (∀ c ∈ components, byteLen c ≤ maxNameLen) ∧
      maxPathLen < byteLen (List.intercalate ['/'] components)
  joined : ∀ p, result = .ok p →
    p = List.intercalate ['/'] components ∧ p.splitOn '/' = components ∧ isCleanRelative p = true

/-- Without levels only the member's name is substituted. -/
theorem bindWith_nil (name : Name) : bindWith [] (memberText name) = memberText name := by
  funext v
  cases v <;> rfl

theorem textOf_eq_flatMap (levels : List Name) (name : Name) (pieces : List Piece) :
    textOf (bindWith levels (memberText name)) pieces = pieces.flatMap (substitute levels name) := by
  induction pieces with
  | nil => rfl
  | cons p pieces ih => cases p <;> simp [ih,substitute,bindWith,memberText]

/-- A template without levels returns what its components with the member's name demand. -/
theorem Template.interpolates {t : Template} (ht : t.depth = 0) (name : Name) :
    Interpolates (t.components.map (textOf (memberText name))) (t.interpolate name) := by
  have hplain : ∀ c ∈ t.components.map (textOf (memberText name)), isPlain c = true := by
    intro c hc
    obtain ⟨pieces,hp,rfl⟩ := List.mem_map.mp hc
    exact isPlain_memberText ht name hp
  have hne : t.components.map (textOf (memberText name)) ≠ [] := by
    obtain ⟨pieces,hp,-⟩ := t.named
    exact List.ne_nil_of_mem (List.mem_map_of_mem hp)
  have hfits : overlong (t.components.map (textOf (memberText name))) = none ↔ _ :=
    overlong_eq_none
  have hpath : t.path (memberText name) =
      List.intercalate ['/'] (t.components.map (textOf (memberText name))) := rfl
  rw [interpolate_eq ht]
  generalize t.components.map (textOf (memberText name)) = cs at *
  rw [hpath]
  cases hover : overlong cs with
  | some len =>
    have hlong : ∃ c ∈ cs, maxNameLen < byteLen c := by
      by_contra hno
      push Not at hno
      rw [hfits.mpr hno] at hover
      cases hover
    refine ⟨by simp,by simpa using hlong,?_,by simp⟩
    simp only [Except.error.injEq,reduceCtorEq,exists_false,false_iff]
    intro h
    obtain ⟨c,hc,hlt⟩ := hlong
    have hle := h.1 c hc
    omega
  | none =>
    have hle := hfits.mp hover
    have hshort : ¬∃ c ∈ cs, maxNameLen < byteLen c := by
      rintro ⟨c,hc,hlt⟩
      have hc' := hle c hc
      omega
    by_cases hlen : byteLen (List.intercalate ['/'] cs) > maxPathLen
    · simp only [if_pos hlen]
      exact ⟨by simp,by simp [hshort],by simpa using ⟨hle,hlen⟩,by simp⟩
    · simp only [if_neg hlen]
      refine ⟨by simp,by simp [hshort],by simp; omega,?_⟩
      rintro p ⟨⟩
      exact ⟨rfl,List.splitOn_intercalate '/'
        (fun c hc => ((isPlain_iff c).mp (hplain c hc)).2.2.2.1) hne,
        isCleanRelative_intercalate hne hplain⟩

theorem substituted_nil (t : Template) (name : Name) :
    t.substituted [] name = t.components.map (textOf (memberText name)) := by
  rw [← bindWith_nil]
  apply List.map_congr_left
  intro pieces _
  rw [textOf_eq_flatMap]

/-- Binding the levels first makes no difference to what is substituted. -/
theorem bindLevels_substituted {t u : Template} {levels : List Name} {h : t.depth ≤ levels.length}
    (hu : t.bindLevels levels h = .ok u) (name : Name) :
    t.substituted levels name = u.substituted [] name := by
  rw [substituted_nil,bindLevels_components hu,List.map_map]
  apply List.map_congr_left
  intro pieces _
  rw [Function.comp_apply,textOf_boundPieces,textOf_eq_flatMap]

/-- An accepted template stays as many plain components as it was written with. -/
theorem interpolation_adds_nothing :
    (∀ raw t, Template.parse raw = .ok t → ∀ name,
      t.interpolateOrPanic name = some (t.interpolate name) ∧
      Interpolates (t.substituted [] name) (t.interpolate name)) ∧
    (∀ setName raw path set, (validateGroupSet setName raw path).1 = some set →
      ∀ t, t = set.source ∨ t = set.target →
      ∀ levels : List Name, levels.length = set.depth →
      ∃ h : t.depth ≤ levels.length,
        t.bindLevelsOrPanic levels =
          some ((t.bindLevels levels h).map fun u => (u.components,u.raw)) ∧
        ∀ u, t.bindLevels levels h = .ok u → ∀ name,
          u.interpolateOrPanic name = some (u.interpolate name) ∧
          Interpolates (t.substituted levels name) (u.interpolate name)) := by
  constructor
  · intro raw t ht name
    have hdepth := parse_depth ht
    rw [substituted_nil]
    exact ⟨interpolateOrPanic_eq hdepth name,interpolates hdepth name⟩
  · intro setName raw path set _ t ht levels hlevels
    have hle : t.depth ≤ levels.length := by
      rw [hlevels]
      rcases ht with rfl | rfl
      · exact set.source_depth_le
      · exact set.target_depth_le
    refine ⟨hle,bindLevelsOrPanic_eq hle,?_⟩
    intro u hu name
    have hdepth := bindLevels_depth hu
    rw [bindLevels_substituted hu,substituted_nil]
    exact ⟨interpolateOrPanic_eq hdepth name,interpolates hdepth name⟩

/-! ### A static group's template and one of a group set -/
namespace SampleTemplates

def setName : Name := ⟨"research".toList,by decide⟩
def level : Name := ⟨"acme".toList,by decide⟩
def member : Name := ⟨"libcurl".toList,by decide⟩

def static : Text := "lib-\x7bname\x7d/work".toList

def rawSet : RawGroupSet where
  membershipRoot := "/members".toList
  sourceRoot := "/data".toList
  source := "\x7bgroup\x7d/\x7bname\x7d".toList
  targetRoot := "/view".toList
  target := "\x7bgroup\x7d-\x7bname\x7d".toList
  readOnly := none
  noexec := none
  nosymfollow := none

theorem static_accepted : (parse static).toOption.isSome := by decide +kernel

theorem set_accepted : (validateGroupSet setName rawSet []).1.map (·.depth) = some 1 := by
  decide +kernel

theorem interpolation_adds_nothing_run : ∃ t set,
    parse static = .ok t ∧ (validateGroupSet setName rawSet []).1 = some set ∧
    Interpolates (t.substituted [] member) (t.interpolate member) ∧
    set.target.bindLevelsOrPanic [level] ≠ none := by
  obtain ⟨t,ht⟩ := Option.isSome_iff_exists.mp static_accepted
  obtain ⟨set,hset,hdepth⟩ := Option.map_eq_some_iff.mp set_accepted
  have hparse := Program.ok_of_toOption ht
  refine ⟨t,set,hparse,hset,(interpolation_adds_nothing.1 static t hparse member).2,?_⟩
  obtain ⟨h,hbind,-⟩ := interpolation_adds_nothing.2 setName rawSet _ set hset set.target
    (.inr rfl) [level] hdepth.symm
  rw [hbind]
  exact Option.some_ne_none _

end SampleTemplates
end Byssus
