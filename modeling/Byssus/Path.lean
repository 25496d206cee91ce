import Byssus.Name
import Byssus.Library.Lists

/-! Validated absolute paths and locations beneath trusted roots. -/
namespace Byssus

def nul : Char := Char.ofNat 0

/-- A component a path may have: not empty, not `.` or `..`, without `/` and NUL. -/
def isPlain (c : Text) : Bool :=
  c ≠ [] && c ≠ ['.'] && c ≠ ['.','.'] && !c.contains '/' && !c.contains nul

theorem isPlain_iff (c : Text) :
    isPlain c = true ↔ c ≠ [] ∧ c ≠ ['.'] ∧ c ≠ ['.','.'] ∧ '/' ∉ c ∧ nul ∉ c := by
  simp [isPlain,and_assoc]

theorem Name.nul_notMem (n : Name) : nul ∉ n.text := by
  intro h
  have ha := n.allowed h
  revert ha
  decide

theorem Name.isPlain (n : Name) : isPlain n.text = true := by
  rw [isPlain_iff]
  refine ⟨n.text_ne_nil,?_,?_,n.slash_notMem,n.nul_notMem⟩
  · intro h; exact n.head_ne_dot (by simp [h])
  · intro h; exact n.head_ne_dot (by simp [h])

/-- `AbsPath`: the components between the slashes; the root directory has none. -/
structure AbsPath where
  components : List Text
  plain : ∀ c ∈ components, isPlain c = true
  deriving DecidableEq

inductive AbsPathError
  | notAbsolute
  | emptyComponent
  | dotComponent (component : Text)
  | nul
  deriving DecidableEq

namespace AbsPath

/-- The first component of `rest.split('/')` that `AbsPath::new` rejects. -/
def componentError (components : List Text) : Option AbsPathError :=
  components.findSome? fun c =>
    if c = [] then some .emptyComponent
    else if c = ['.'] ∨ c = ['.','.'] then some (.dotComponent c)
    else none

theorem componentError_none {rest : Text} (hn : nul ∉ rest)
    (h : componentError (rest.splitOn '/') = none) :
    ∀ c ∈ rest.splitOn '/', isPlain c = true := by
  intro c hc
  have hh := List.findSome?_eq_none_iff.mp h c hc
  have hs : '/' ∉ c := Lists.notMem_of_mem_splitOn hc
  have hz : nul ∉ c := fun h0 => hn (Lists.mem_of_mem_splitOn hc h0)
  rw [isPlain_iff]
  split_ifs at hh with h₁ h₂
  exact ⟨h₁,fun h => h₂ (.inl h),fun h => h₂ (.inr h),hs,hz⟩

/-- `rest.strip_suffix('/').unwrap_or(rest)`. -/
def stripSlash (rest : Text) : Text :=
  if rest.getLast? = some '/' then rest.dropLast else rest

theorem mem_of_mem_stripSlash {rest : Text} {c : Char} (h : c ∈ stripSlash rest) : c ∈ rest := by
  unfold stripSlash at h
  split at h
  · exact List.mem_of_mem_dropLast h
  · exact h

/-- `AbsPath::new`. -/
def new (raw : Text) : Except AbsPathError AbsPath :=
  if hn : raw.contains nul then .error .nul
  else match raw with
    | '/' :: rest =>
      if rest = [] then .ok ⟨[],by simp⟩
      else
        let components := (stripSlash rest).splitOn '/'
        match he : componentError components with
        | some e => .error e
        | none => .ok ⟨components,componentError_none (fun h => by
            have hr := mem_of_mem_stripSlash h
            simp [hr] at hn) he⟩
    | _ => .error .notAbsolute

/-- `is_at_or_beneath`, compared by components. -/
def isAtOrBeneath (p other : AbsPath) : Bool := other.components.isPrefixOf p.components

theorem isAtOrBeneath_iff (p other : AbsPath) :
    p.isAtOrBeneath other = true ↔ other.components <+: p.components := by
  simp [isAtOrBeneath]

/-- `join_name`: one more component. -/
def joinName (p : AbsPath) (n : Name) : AbsPath where
  components := p.components++[n.text]
  plain := by
    intro c hc
    rcases List.mem_append.mp hc with hc | hc
    · exact p.plain c hc
    · rw [List.mem_singleton.mp hc]
      exact n.isPlain

@[simp] theorem joinName_components (p : AbsPath) (n : Name) :
    (p.joinName n).components = p.components++[n.text] := rfl

/-- The loop that appends every level of a group path. -/
theorem foldl_joinName_components (p : AbsPath) (ns : List Name) :
    (ns.foldl joinName p).components = p.components++ns.map Name.text := by
  induction ns generalizing p with
  | nil => simp
  | cons n ns ih => simp [ih]

theorem components_injective : Function.Injective AbsPath.components := by
  rintro ⟨a,ha⟩ ⟨b,hb⟩ h
  simpa using h

def display (p : AbsPath) : Text := '/' :: List.intercalate ['/'] p.components

theorem new_ok {rest : Text} {cs : List Text} (hn : nul ∉ '/'::rest) (hr : rest ≠ [])
    (hs : (stripSlash rest).splitOn '/' = cs) (he : componentError cs = none)
    (hplain : ∀ c ∈ cs, isPlain c = true) : new ('/'::rest) = .ok ⟨cs,hplain⟩ := by
  subst hs
  unfold new
  rw [dif_neg (by simpa using hn)]
  simp only
  rw [if_neg hr]
  split
  · rename_i e herr
    rw [he] at herr
    cases herr
  · rfl

/-- A path is read back from its display. -/
theorem new_display (p : AbsPath) : new p.display = .ok p := by
  obtain ⟨cs,hplain⟩ := p
  have hletters : ∀ c ∈ cs, c ≠ [] ∧ '/' ∉ c ∧ nul ∉ c := by
    intro c hc
    have hp := (isPlain_iff c).mp (hplain c hc)
    exact ⟨hp.1,hp.2.2.2⟩
  have hnul : nul ∉ display ⟨cs,hplain⟩ := by
    simp only [display,List.mem_cons,not_or]
    refine ⟨by decide,fun h => ?_⟩
    rcases Lists.mem_intercalate h with h | ⟨c,hc,h⟩
    · exact absurd h (by decide)
    · exact (hletters c hc).2.2 h
  by_cases hcs : cs = []
  · subst hcs
    rfl
  have hsplit : (List.intercalate ['/'] cs).splitOn '/' = cs :=
    List.splitOn_intercalate '/' (fun c hc => (hletters c hc).2.1) hcs
  have hrest : List.intercalate ['/'] cs ≠ [] := by
    intro h
    rw [h] at hsplit
    exact (hletters [] (by rw [← hsplit]; simp)).1 rfl
  have hstrip : stripSlash (List.intercalate ['/'] cs) = List.intercalate ['/'] cs := by
    apply if_neg
    intro h
    obtain ⟨c,hc,hin⟩ := Lists.getLast?_intercalate (fun c hc => (hletters c hc).1) h
    exact (hletters c hc).2.1 hin
  have herror : componentError cs = none := by
    apply List.findSome?_eq_none_iff.mpr
    intro c hc
    have hp := (isPlain_iff c).mp (hplain c hc)
    simp [hp.1,hp.2.1,hp.2.2.1]
  exact new_ok hnul hrest (by rw [hstrip,hsplit]) herror hplain

instance : Ord AbsPath := ⟨compareOn AbsPath.components⟩
instance : Std.TransOrd AbsPath := inferInstanceAs (Std.TransCmp (compareOn AbsPath.components))
instance : Std.LawfulEqOrd AbsPath := KeyOrder.lawfulEq_compareOn components_injective

end AbsPath

/-- `Location`: an interpolated relative path beneath a trusted root. -/
structure Location where
  root : AbsPath
  path : Text
  deriving DecidableEq

namespace Location

def display (l : Location) : Text :=
  if l.root.components = [] then '/' :: l.path else l.root.display ++ '/' :: l.path

instance : Ord Location := ⟨compareLex (compareOn Location.root) (compareOn Location.path)⟩
instance : Std.TransOrd Location :=
  inferInstanceAs (Std.TransCmp (compareLex (compareOn Location.root) (compareOn Location.path)))
instance : Std.LawfulEqOrd Location := KeyOrder.lawfulEq_compareLex fun a b h₁ h₂ => by
  cases a; cases b; simp_all

end Location
end Byssus
