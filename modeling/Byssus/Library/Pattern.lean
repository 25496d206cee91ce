import Mathlib.Algebra.GroupWithZero.Nat
import Mathlib.Data.List.Basic
import Mathlib.Logic.Relation
import Mathlib.Order.Nat

/-! Words with variables.  Whether a system of word equations has a solution in which
every variable has a given length is decided by the positions that the equations
identify with each other. -/
namespace Pattern

variable {V W A : Type*}

inductive Symbol (V A : Type*)
  | literal (word : List A)
  | var (v : V)

def Symbol.rename (f : V → W) : Symbol V A → Symbol W A
  | .literal word => .literal word
  | .var v => .var (f v)

/-- The word that the symbols stand for. -/
def instantiate (σ : V → List A) (p : List (Symbol V A)) : List A :=
  p.flatMap fun
    | .literal word => word
    | .var v => σ v

@[simp] theorem instantiate_nil (σ : V → List A) : instantiate σ [] = [] := rfl

@[simp] theorem instantiate_literal (σ : V → List A) (word : List A) (p : List (Symbol V A)) :
    instantiate σ (.literal word::p) = word++instantiate σ p := rfl

@[simp] theorem instantiate_var (σ : V → List A) (v : V) (p : List (Symbol V A)) :
    instantiate σ (.var v::p) = σ v++instantiate σ p := rfl

@[simp] theorem instantiate_append (σ : V → List A) (p q : List (Symbol V A)) :
    instantiate σ (p++q) = instantiate σ p++instantiate σ q := by
  simp [instantiate]

theorem instantiate_rename (σ : W → List A) (f : V → W) (p : List (Symbol V A)) :
    instantiate σ (p.map (Symbol.rename f)) = instantiate (σ ∘ f) p := by
  induction p with
  | nil => rfl
  | cons s p ih => cases s <;> simp [Symbol.rename,ih]

/-- The length of an instance, from the lengths of the variables. -/
def lengthOf (len : V → ℕ) (p : List (Symbol V A)) : ℕ :=
  (p.map fun
    | .literal word => word.length
    | .var v => len v).sum

@[simp] theorem lengthOf_literal (len : V → ℕ) (word : List A) (p : List (Symbol V A)) :
    lengthOf len (.literal word::p) = word.length+lengthOf len p := by
  simp [lengthOf]

@[simp] theorem lengthOf_var (len : V → ℕ) (v : V) (p : List (Symbol V A)) :
    lengthOf len (.var v::p) = len v+lengthOf len p := by
  simp [lengthOf]

theorem lengthOf_rename (len : W → ℕ) (f : V → W) (p : List (Symbol V A)) :
    lengthOf len (p.map (Symbol.rename f)) = lengthOf (len ∘ f) p := by
  induction p with
  | nil => rfl
  | cons s p ih => cases s <;> simp [Symbol.rename,ih]

theorem lengthOf_congr {len len' : V → ℕ} {p : List (Symbol V A)}
    (h : ∀ v, Symbol.var v ∈ p → len v = len' v) : lengthOf len p = lengthOf len' p := by
  induction p with
  | nil => rfl
  | cons s p ih =>
    have hrest := ih fun v hv => h v (List.mem_cons_of_mem _ hv)
    cases s with
    | literal word => simp [hrest]
    | var v => simp [hrest,h v (by simp)]

theorem length_instantiate (σ : V → List A) (p : List (Symbol V A)) :
    (instantiate σ p).length = lengthOf (fun v => (σ v).length) p := by
  induction p with
  | nil => rfl
  | cons s p ih => cases s <;> simp [ih]

theorem lengthOf_le {len len' : V → ℕ} (h : ∀ v, len v ≤ len' v) (p : List (Symbol V A)) :
    lengthOf len p ≤ lengthOf len' p := by
  induction p with
  | nil => exact Nat.le_refl _
  | cons s p ih =>
    cases s with
    | literal word => simpa using ih
    | var v => simpa using Nat.add_le_add (h v) ih

theorem lengthOf_lt {len len' : V → ℕ} (h : ∀ v, len v ≤ len' v) {p : List (Symbol V A)} {w : V}
    (hw : Symbol.var w ∈ p) (hlt : len w < len' w) : lengthOf len p < lengthOf len' p := by
  induction p with
  | nil => cases hw
  | cons s p ih =>
    have hle := lengthOf_le h p
    rcases List.mem_cons.mp hw with rfl | hw
    · simp only [lengthOf_var]
      omega
    · have hp := ih hw
      cases s with
      | literal word => simpa using hp
      | var v =>
        have hv := h v
        simp only [lengthOf_var]
        omega

/-- Instances of equal length that differ in the length of one variable at most do not
differ in it, if it occurs. -/
theorem length_eq_of_lengthOf_eq {len len' : V → ℕ} {p : List (Symbol V A)} {w : V}
    (hw : Symbol.var w ∈ p) (h : ∀ v, v ≠ w → len v = len' v)
    (hlen : lengthOf len p = lengthOf len' p) : len w = len' w := by
  by_contra hne
  rcases Nat.lt_or_gt_of_ne hne with hlt | hlt
  · have hle : ∀ v, len v ≤ len' v := by
      intro v
      by_cases hv : v = w
      · subst hv; omega
      · exact (h v hv).le
    have := lengthOf_lt hle hw hlt
    omega
  · have hle : ∀ v, len' v ≤ len v := by
      intro v
      by_cases hv : v = w
      · subst hv; omega
      · exact (h v hv).ge
    have := lengthOf_lt hle hw hlt
    omega

/-- Equal instances with variables of equal lengths agree on every variable. -/
theorem eq_of_instantiate_eq {σ τ : V → List A} {p : List (Symbol V A)}
    (hlen : ∀ v, (σ v).length = (τ v).length) (h : instantiate σ p = instantiate τ p) {v : V}
    (hv : Symbol.var v ∈ p) : σ v = τ v := by
  induction p with
  | nil => cases hv
  | cons s p ih =>
    cases s with
    | literal word =>
      have hrest : instantiate σ p = instantiate τ p := by simpa using h
      exact ih hrest (by simpa using hv)
    | var w =>
      obtain ⟨hhead,hrest⟩ := List.append_inj h (hlen w)
      rcases List.mem_cons.mp hv with heq | hv
      · cases heq
        exact hhead
      · exact ih hrest hv

/-- A position of an instance: a letter of the pattern, or a letter of a variable. -/
inductive Cell (V A : Type*)
  | letter (a : A)
  | position (v : V) (i : ℕ)

/-- The positions of an instance in order. -/
def cells (len : V → ℕ) (p : List (Symbol V A)) : List (Cell V A) :=
  p.flatMap fun
    | .literal word => word.map .letter
    | .var v => (List.range (len v)).map (.position v)

theorem length_cells (len : V → ℕ) (p : List (Symbol V A)) :
    (cells len p).length = lengthOf len p := by
  induction p with
  | nil => rfl
  | cons s p ih => cases s <;> simpa [cells] using ih

/-- The letter that `σ` puts at a position. -/
def Cell.read (x : A) (σ : V → List A) : Cell V A → A
  | .letter a => a
  | .position v i => (σ v).getD i x

theorem map_read_cells (x : A) (σ : V → List A) (p : List (Symbol V A)) :
    (cells (fun v => (σ v).length) p).map (Cell.read x σ) = instantiate σ p := by
  have hword : ∀ word : List A, (word.map Cell.letter).map (Cell.read x σ) = word := by
    intro word
    simp [Function.comp_def,Cell.read]
  have hvar : ∀ v, ((List.range (σ v).length).map (Cell.position v)).map (Cell.read x σ) = σ v := by
    intro v
    apply List.ext_getElem
    · simp
    · intro i h₁ h₂
      simp [Cell.read,h₂]
  induction p with
  | nil => rfl
  | cons s p ih =>
    cases s with
    | literal word =>
      rw [instantiate_literal,← ih]
      simp only [cells,List.flatMap_cons,List.map_append,hword]
    | var v =>
      rw [instantiate_var,← ih]
      simp only [cells,List.flatMap_cons,List.map_append,hvar]

/-- An equation between two patterns. -/
abbrev Equation (V A : Type*) := List (Symbol V A) × List (Symbol V A)

/-- Two positions that an equation puts over each other. -/
def Aligned (len : V → ℕ) (system : List (Equation V A)) (c c' : Cell V A) : Prop :=
  ∃ e ∈ system, ∃ i : ℕ, (cells len e.1)[i]? = some c ∧ (cells len e.2)[i]? = some c'

/-- Positions that have the same letter in every solution. -/
def Identified (len : V → ℕ) (system : List (Equation V A)) : Cell V A → Cell V A → Prop :=
  Relation.EqvGen (Aligned len system)

/-- The identified positions contradict neither each other nor the letters a variable
may have at a position. -/
structure Consistent (allowed : V → ℕ → A → Prop) (len : V → ℕ)
    (system : List (Equation V A)) : Prop where
  lengths : ∀ e ∈ system, (cells len e.1).length = (cells len e.2).length
  letters : ∀ a b, Identified len system (.letter a) (.letter b) → a = b
  positions : ∀ a v i, i < len v → Identified len system (.letter a) (.position v i) →
    allowed v i a

/-- An assignment of words of the given lengths, of allowed letters, that solves the system. -/
structure Solves (allowed : V → ℕ → A → Prop) (len : V → ℕ) (system : List (Equation V A))
    (σ : V → List A) : Prop where
  length : ∀ v, (σ v).length = len v
  allowed : ∀ v i a, (σ v)[i]? = some a → allowed v i a
  equations : ∀ e ∈ system, instantiate σ e.1 = instantiate σ e.2

variable {allowed : V → ℕ → A → Prop} {len : V → ℕ} {system : List (Equation V A)}
  {σ : V → List A}

theorem Solves.map_read (h : Solves allowed len system σ) (x : A) (p : List (Symbol V A)) :
    (cells len p).map (Cell.read x σ) = instantiate σ p := by
  have hlen : len = fun v => (σ v).length := by
    funext v
    exact (h.length v).symm
  rw [hlen]
  exact map_read_cells x σ p

/-- A solution reads the same letter at identified positions. -/
theorem Solves.read_eq (h : Solves allowed len system σ) (x : A) {c c' : Cell V A}
    (hc : Identified len system c c') : c.read x σ = c'.read x σ := by
  induction hc with
  | rel c c' hcc =>
    obtain ⟨e,he,i,h₁,h₂⟩ := hcc
    have heq := h.equations e he
    rw [← h.map_read x,← h.map_read x] at heq
    have hi := congrArg (fun l => l[i]?) heq
    simpa [h₁,h₂] using hi
  | refl => rfl
  | symm _ _ _ ih => exact ih.symm
  | trans _ _ _ _ _ ih₁ ih₂ => exact ih₁.trans ih₂

theorem Solves.consistent (h : Solves allowed len system σ) : Consistent allowed len system where
  lengths := by
    intro e he
    have hlen : len = fun v => (σ v).length := by
      funext v
      exact (h.length v).symm
    have heq := congrArg List.length (h.equations e he)
    rw [length_instantiate,length_instantiate,← hlen] at heq
    rwa [length_cells,length_cells]
  letters := by
    intro a b hab
    exact h.read_eq a hab
  positions := by
    intro a v i hi hav
    have hread := h.read_eq a hav
    rw [← h.length v] at hi
    apply h.allowed v i a
    simp only [Cell.read] at hread
    rw [hread,List.getElem?_eq_getElem hi]
    simp [hi]

open Classical in
/-- An element with the property, or the default if there is none. -/
noncomputable def pick (x : A) (P : A → Prop) : A := if h : ∃ a, P a then h.choose else x

theorem pick_spec (x : A) {P : A → Prop} (h : ∃ a, P a) : P (pick x P) := by
  rw [pick,dif_pos h]
  exact h.choose_spec

theorem pick_default (x : A) {P : A → Prop} (h : ¬∃ a, P a) : pick x P = x := dif_neg h

/-- The letter of a class of identified positions: one the class contains, or a default. -/
noncomputable def classLetter (len : V → ℕ) (system : List (Equation V A)) (x : A)
    (c : Cell V A) : A :=
  pick x fun a => Identified len system (.letter a) c

theorem classLetter_eq (x : A) {c c' : Cell V A} (h : Identified len system c c') :
    classLetter len system x c = classLetter len system x c' := by
  have hiff : (fun a => Identified len system (.letter a) c) =
      fun a => Identified len system (.letter a) c' := by
    funext a
    apply propext
    constructor
    · intro ha
      exact ha.trans _ _ _ h
    · intro ha
      exact ha.trans _ _ _ (h.symm _ _)
  exact congrArg (pick x) hiff

theorem Consistent.classLetter_letter (h : Consistent allowed len system) (x a : A) :
    classLetter len system x (.letter a) = a := by
  have hex : ∃ b, Identified len system (.letter b) (.letter a) := ⟨a,.refl _⟩
  exact h.letters _ _ (pick_spec x hex)

/-- The assignment that gives every position the letter of its class. -/
noncomputable def classWords (len : V → ℕ) (system : List (Equation V A)) (x : A) (v : V) :
    List A :=
  (List.range (len v)).map fun i => classLetter len system x (.position v i)

theorem Consistent.map_classLetter (h : Consistent allowed len system) (x : A)
    (p : List (Symbol V A)) :
    (cells len p).map (classLetter len system x) = instantiate (classWords len system x) p := by
  induction p with
  | nil => rfl
  | cons s p ih =>
    cases s with
    | literal word =>
      rw [instantiate_literal,← ih]
      simp [cells,Function.comp_def,h.classLetter_letter]
    | var v =>
      rw [instantiate_var,← ih]
      simp [cells,classWords,Function.comp_def]

/-- A consistent system is solved by the letters of the classes. -/
theorem Consistent.solves (h : Consistent allowed len system) {x : A}
    (hx : ∀ v i, allowed v i x) : Solves allowed len system (classWords len system x) where
  length := by
    intro v
    simp [classWords]
  allowed := by
    intro v i a ha
    simp only [classWords,List.getElem?_map,Option.map_eq_some_iff] at ha
    obtain ⟨j,hj,rfl⟩ := ha
    obtain ⟨hi,rfl⟩ := List.getElem?_eq_some_iff.mp hj
    simp only [List.length_range] at hi
    simp only [List.getElem_range]
    by_cases hex : ∃ a, Identified len system (.letter a) (.position v i)
    · exact h.positions _ _ _ hi (pick_spec x hex)
    · rw [classLetter,pick_default x hex]
      exact hx v i
  equations := by
    intro e he
    rw [← h.map_classLetter,← h.map_classLetter]
    apply List.ext_getElem
    · simpa using h.lengths e he
    · intro i h₁ h₂
      simp only [List.length_map] at h₁ h₂
      simp only [List.getElem_map]
      apply classLetter_eq
      exact .rel _ _ ⟨e,he,i,List.getElem?_eq_getElem h₁,List.getElem?_eq_getElem h₂⟩

/-- A system has a solution of the given lengths exactly if it is consistent. -/
theorem solvable_iff {x : A} (hx : ∀ v i, allowed v i x) :
    (∃ σ, Solves allowed len system σ) ↔ Consistent allowed len system := by
  constructor
  · intro h
    obtain ⟨σ,h⟩ := h
    exact h.consistent
  · intro h
    exact ⟨_,h.solves hx⟩

end Pattern
