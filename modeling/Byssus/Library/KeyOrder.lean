import Byssus.Library.Lists

/-! Comparisons on record types used as keys of ordered maps.
A record is compared field by field; its comparison is lawful as soon as the
compared fields determine it.  Sorting by such a comparison leaves no choice. -/
namespace KeyOrder

open Std

variable {α β γ : Type*}

theorem lawfulEq_compareOn [Ord β] [LawfulEqOrd β] {f : α → β}
    (hf : Function.Injective f) : LawfulEqCmp (compareOn f) where
  compare_self := by
    intro a
    exact (ReflCmp.compare_self : compare (f a) (f a) = .eq)
  eq_of_compare := by
    intro a b h
    exact hf (LawfulEqCmp.eq_of_compare (show compare (f a) (f b) = .eq from h))

theorem lawfulEq_compareLex [Ord β] [LawfulEqOrd β] [Ord γ] [LawfulEqOrd γ]
    {f : α → β} {g : α → γ} (hfg : ∀ a b, f a = f b → g a = g b → a = b) :
    LawfulEqCmp (compareLex (compareOn f) (compareOn g)) where
  compare_self := by
    intro a
    simp [compareLex,compareOn]
  eq_of_compare := by
    intro a b h
    have hh : compareOn f a b = .eq ∧ compareOn g a b = .eq := by
      simpa [compareLex,Ordering.then_eq_eq] using h
    have hf := LawfulEqCmp.eq_of_compare (show compare (f a) (f b) = .eq from hh.1)
    have hg := LawfulEqCmp.eq_of_compare (show compare (g a) (g b) = .eq from hh.2)
    exact hfg a b hf hg

/-- A list that is sorted by a key, and in order where keys are equal, is sorted by both. -/
theorem insertionSort_compareLex [Ord β] [LawfulEqOrd β] (name : α → γ) {f : α → β} {key : γ → β}
    {tie : γ → γ → Ordering} (hf : ∀ a, f a = key (name a)) {l : List α}
    (h : l.Pairwise fun a b => f a = f b → (tie (name a) (name b)).isLE = true) :
    (l.insertionSort fun a b => (compare (f a) (f b)).isLE = true) =
      l.insertionSort fun a b => (compareLex (compareOn key) tie (name a) (name b)).isLE = true := by
  apply Lists.insertionSort_congr
  refine h.imp fun {a b} hab => ?_
  rw [compareLex,compareOn,← hf,← hf]
  cases hc : compare (f a) (f b) with
  | lt => simp
  | gt => simp
  | eq =>
    have htie := hab (LawfulEqCmp.eq_of_compare hc)
    simpa using htie

theorem pairwise_insertionSort {cmp : γ → γ → Ordering} [TransCmp cmp] (name : α → γ) (l : List α) :
    (l.insertionSort fun a b => (cmp (name a) (name b)).isLE = true).Pairwise
      fun a b => (cmp (name a) (name b)).isLE = true := by
  have htotal : Std.Total fun a b : α => (cmp (name a) (name b)).isLE = true := ⟨fun a b => by
    have hswap : cmp (name a) (name b) = (cmp (name b) (name a)).swap := OrientedCmp.eq_swap
    rw [hswap]
    cases cmp (name b) (name a) <;> simp⟩
  have htrans : IsTrans α fun a b => (cmp (name a) (name b)).isLE = true :=
    ⟨fun a b c hab hbc => TransCmp.isLE_trans hab hbc⟩
  exact List.pairwise_insertionSort _ l

/-- Lists of the same names are sorted alike. -/
theorem map_insertionSort (cmp : γ → γ → Ordering) [TransCmp cmp] [LawfulEqCmp cmp]
    {name : α → γ} {l l' : List α} (h : (l.map name).Perm (l'.map name)) :
    (l.insertionSort fun a b => (cmp (name a) (name b)).isLE = true).map name =
      (l'.insertionSort fun a b => (cmp (name a) (name b)).isLE = true).map name := by
  have hsorted : ∀ l : List α,
      ((l.insertionSort fun a b => (cmp (name a) (name b)).isLE = true).map name).Pairwise
        fun a b => (cmp a b).isLE = true := by
    intro l
    rw [List.pairwise_map]
    exact pairwise_insertionSort name l
  refine List.Perm.eq_of_pairwise (fun a b _ _ hab hba => ?_) (hsorted l) (hsorted l') ?_
  · exact LawfulEqCmp.eq_of_compare (OrientedCmp.isLE_antisymm hab hba)
  · exact ((List.perm_insertionSort _ l).map name).trans
      (h.trans ((List.perm_insertionSort _ l').map name).symm)

end KeyOrder
