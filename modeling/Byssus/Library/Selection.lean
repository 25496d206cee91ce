import Byssus.Library.Lists
import Mathlib.Data.List.Dedup
import Mathlib.Data.List.GetD
import Mathlib.Data.List.Sort
import Mathlib.Data.List.Forall2

/-! Lists of tasks that depend on tasks at other positions, and the part of such a list that a
predicate selects. -/
namespace Selection

variable {α β : Type*}

/-! ### Positions -/

/-- The positions of the selected elements. -/
def positions (p : β → Bool) (xs : List β) : List ℕ :=
  (List.range xs.length).filter fun i => xs[i]?.any p

/-- The `n`th selected element is at position `i`. -/
def At (p : β → Bool) (xs : List β) (i n : ℕ) : Prop := (positions p xs)[n]? = some i

variable {p : β → Bool} {xs : List β}

@[simp] theorem positions_nil : positions p [] = [] := rfl

theorem positions_concat (xs : List β) (x : β) :
    positions p (xs++[x]) = positions p xs++if p x then [xs.length] else [] := by
  have hold : (List.range xs.length).filter (fun i => (xs++[x])[i]?.any p) =
      (List.range xs.length).filter fun i => xs[i]?.any p := by
    apply List.filter_congr
    intro i hi
    rw [List.getElem?_append_left (List.mem_range.mp hi)]
  unfold positions
  rw [List.length_append,List.length_singleton,List.range_succ,List.filter_append,hold]
  by_cases hx : p x = true <;> simp [hx]

theorem mem_positions {i : ℕ} : i ∈ positions p xs ↔ ∃ x, xs[i]? = some x ∧ p x = true := by
  simp only [positions,List.mem_filter,List.mem_range,Option.any_eq_true]
  constructor
  · exact fun h => h.2
  · rintro ⟨x,hx,hp⟩
    exact ⟨(List.getElem?_eq_some_iff.mp hx).1,x,hx,hp⟩

theorem positions_sorted : (positions p xs).SortedLT :=
  (List.pairwise_lt_range.filter _).sortedLT

theorem At.mem {i n : ℕ} (h : At p xs i n) : i ∈ positions p xs := List.mem_of_getElem? h

theorem At.concat {i n : ℕ} (h : At p xs i n) (x : β) : At p (xs++[x]) i n := by
  have hlt := (List.getElem?_eq_some_iff.mp h).1
  unfold At
  rw [positions_concat,List.getElem?_append_left hlt]
  exact h

/-- The position of the `n`th selected element. -/
def place (p : β → Bool) (xs : List β) (n : ℕ) : ℕ := (positions p xs).getD n 0

theorem at_iff {i n : ℕ} : At p xs i n ↔ n < (positions p xs).length ∧ place p xs n = i := by
  unfold At place
  rw [List.getElem?_eq_some_iff]
  constructor
  · rintro ⟨hlt,hi⟩
    exact ⟨hlt,by rw [List.getD_eq_getElem _ _ hlt,hi]⟩
  · rintro ⟨hlt,hi⟩
    rw [List.getD_eq_getElem _ _ hlt] at hi
    exact ⟨hlt,hi⟩

theorem positions_eq_map_place :
    positions p xs = (List.range (positions p xs).length).map (place p xs) := by
  apply List.ext_getElem (by simp)
  intro n hn hn'
  rw [List.getElem_map,List.getElem_range,place,List.getD_eq_getElem _ _ hn]

theorem at_length {x : β} (hx : p x = true) :
    At p (xs++[x]) xs.length (positions p xs).length := by
  simp [At,positions_concat,hx]

/-- The positions in a list without repetitions. -/
theorem positions_of_nodup [DecidableEq β] (h : xs.Nodup) :
    positions p xs = (xs.filter p).map xs.idxOf := by
  induction xs using List.reverseRecOn with
  | nil => rfl
  | append_singleton xs x ih =>
    have hx : x ∉ xs := by
      intro hm
      exact (List.disjoint_of_nodup_append h) hm (by simp)
    have hold : (xs.filter p).map (xs++[x]).idxOf = (xs.filter p).map xs.idxOf := by
      apply List.map_congr_left
      intro y hy
      exact List.idxOf_append_of_mem (List.mem_filter.mp hy).1
    rw [positions_concat,List.filter_append,List.map_append,hold,ih (List.nodup_append.mp h).1]
    by_cases hp : p x = true
    · simp [hp,List.idxOf_append_of_notMem hx]
    · simp [hp]

/-! ### Ascending lists -/

theorem idxOf_lt {l : List ℕ} (hl : l.SortedLT) {i j : ℕ} (hi : i ∈ l) (hj : j ∈ l) (h : i < j) :
    l.idxOf i < l.idxOf j := by
  by_contra hle
  have hi' := List.idxOf_lt_length_of_mem hi
  have hj' := List.idxOf_lt_length_of_mem hj
  rcases Nat.lt_or_ge (l.idxOf j) (l.idxOf i) with hlt | hge
  · have hpair := List.pairwise_iff_getElem.mp hl.pairwise _ _ hj' hi' hlt
    rw [List.getElem_idxOf,List.getElem_idxOf] at hpair
    omega
  · have heq : l.idxOf i = l.idxOf j := by omega
    have hij : i = j := (List.idxOf_inj hi).mp heq
    omega

theorem mem_ascending {ids : List ℕ} {i : ℕ} :
    i ∈ (ids.insertionSort (· ≤ ·)).dedup ↔ i ∈ ids := by
  rw [List.mem_dedup,List.mem_insertionSort]

theorem sortedLT_ascending (ids : List ℕ) : (ids.insertionSort (· ≤ ·)).dedup.SortedLT := by
  have hle : ((ids.insertionSort (· ≤ ·)).dedup).Pairwise (· ≤ ·) :=
    (List.pairwise_insertionSort _ ids).sublist (List.dedup_sublist _)
  have hne := List.nodup_dedup (ids.insertionSort (· ≤ ·))
  exact (hle.and hne).imp (fun h => by omega) |>.sortedLT

/-- A strictly monotone function commutes with sorting and removing repetitions. -/
theorem map_ascending {f : ℕ → ℕ} {ids : List ℕ}
    (hf : ∀ i ∈ ids, ∀ j ∈ ids, i < j → f i < f j) :
    ((ids.insertionSort (· ≤ ·)).dedup).map f = ((ids.map f).insertionSort (· ≤ ·)).dedup := by
  apply List.SortedLT.eq_of_mem_iff _ (sortedLT_ascending _)
  · intro i
    rw [mem_ascending]
    simp only [List.mem_map,mem_ascending]
  · have hpair := (sortedLT_ascending ids).pairwise
    refine List.Pairwise.sortedLT (List.pairwise_map.mpr (hpair.imp_of_mem ?_))
    intro i j hi hj hlt
    exact hf i (mem_ascending.mp hi) j (mem_ascending.mp hj) hlt

/-! ### Parts -/

/-- `part` holds the selected tasks of `tasks`, whose dependencies are selected, with the
dependencies renumbered. -/
structure Part (p : α → Bool) (tasks part : List (α × List ℕ)) : Prop where
  length_eq : part.length = (positions (fun t => p t.1) tasks).length
  task : ∀ i n, At (fun t => p t.1) tasks i n → ∃ a ids ids', tasks[i]? = some (a,ids) ∧
    part[n]? = some (a,ids') ∧ List.Forall₂ (At (fun t => p t.1) tasks) ids ids'

namespace Part

variable {p : α → Bool} {tasks part : List (α × List ℕ)} {a : α} {ids ids' : List ℕ}

theorem nil : Part p [] [] := ⟨rfl,by simp [At]⟩

/-- A task that is not selected is added. -/
theorem other (h : Part p tasks part) (ha : p a = false) : Part p (tasks++[(a,ids)]) part := by
  have hpos : positions (fun t => p t.1) (tasks++[(a,ids)]) = positions (fun t => p t.1) tasks := by
    rw [positions_concat]
    simp [ha]
  refine ⟨by rw [hpos]; exact h.length_eq,fun i n hat => ?_⟩
  unfold At at hat
  rw [hpos] at hat
  obtain ⟨b,ids,ids',hi,hn,hids⟩ := h.task i n hat
  refine ⟨b,ids,ids',?_,hn,hids.imp fun _ _ hx => hx.concat _⟩
  rw [List.getElem?_append_left (List.getElem?_eq_some_iff.mp hi).1]
  exact hi

/-- A selected task is added to both. -/
theorem own (h : Part p tasks part) (ha : p a = true)
    (hids : List.Forall₂ (At (fun t => p t.1) tasks) ids ids') :
    Part p (tasks++[(a,ids)]) (part++[(a,ids')]) := by
  have hpos : positions (fun t => p t.1) (tasks++[(a,ids)]) =
      positions (fun t => p t.1) tasks++[tasks.length] := by
    rw [positions_concat]
    simp [ha]
  refine ⟨by rw [hpos,List.length_append,List.length_append,h.length_eq,List.length_singleton,
    List.length_singleton],fun i n hat => ?_⟩
  unfold At at hat
  rw [hpos] at hat
  by_cases hn : n < (positions (fun t => p t.1) tasks).length
  · rw [List.getElem?_append_left hn] at hat
    obtain ⟨b,js,js',hi,hb,hjs⟩ := h.task i n hat
    refine ⟨b,js,js',?_,?_,hjs.imp fun _ _ hx => hx.concat _⟩
    · rw [List.getElem?_append_left (List.getElem?_eq_some_iff.mp hi).1]
      exact hi
    · rw [List.getElem?_append_left (List.getElem?_eq_some_iff.mp hb).1]
      exact hb
  · have hlast : n = (positions (fun t => p t.1) tasks).length ∧ i = tasks.length := by
      have hlt := (List.getElem?_eq_some_iff.mp hat).1
      rw [List.length_append,List.length_singleton] at hlt
      have hn' : n = (positions (fun t => p t.1) tasks).length := by omega
      subst hn'
      simp only [List.getElem?_concat_length,Option.some.injEq] at hat
      exact ⟨rfl,hat.symm⟩
    obtain ⟨rfl,rfl⟩ := hlast
    refine ⟨a,ids,ids',by simp,?_,hids.imp fun _ _ hx => hx.concat _⟩
    rw [← h.length_eq]
    simp

theorem at_place (h : Part p tasks part) {n : ℕ} (hn : n < part.length) :
    At (fun t => p t.1) tasks (place (fun t => p t.1) tasks n) n :=
  at_iff.mpr ⟨h.length_eq ▸ hn,rfl⟩

/-- A task of the part is the one at its place, and depends on tasks of the part. -/
theorem task_place (h : Part p tasks part) {n : ℕ} (hn : part[n]? = some (a,ids')) :
    tasks[place (fun t => p t.1) tasks n]? = some (a,ids'.map (place (fun t => p t.1) tasks)) ∧
      ∀ m ∈ ids', m < part.length := by
  obtain ⟨b,js,js',hi,hb,hjs⟩ := h.task _ n (h.at_place (List.getElem?_eq_some_iff.mp hn).1)
  rw [hn] at hb
  cases hb
  have hids : js = ids'.map (place (fun t => p t.1) tasks) := by
    clear hi hn
    induction hjs with
    | nil => rfl
    | cons hx hxs ih => rw [List.map_cons,ih,(at_iff.mp hx).2]
  refine ⟨by rw [hi,hids],fun m hm => ?_⟩
  rw [h.length_eq]
  clear hids hi hn
  induction hjs with
  | nil => cases hm
  | cons hx hxs ih =>
    rcases List.mem_cons.mp hm with rfl | hm
    · exact (at_iff.mp hx).1
    · exact ih hm

/-- The selected tasks that `q` selects too, by their places. -/
theorem filter_range (h : Part p tasks part) (q : α → Bool) :
    ((List.range tasks.length).filter fun i => tasks[i]?.any fun t => q t.1).filter
        (fun i => tasks[i]?.any fun t => p t.1) =
      ((List.range part.length).filter fun n => part[n]?.any fun t => q t.1).map
        (place (fun t => p t.1) tasks) := by
  rw [List.filter_comm]
  show (positions (fun t => p t.1) tasks).filter _ = _
  rw [positions_eq_map_place,List.filter_map,← h.length_eq]
  congr 1
  apply List.filter_congr
  intro n hn
  obtain ⟨⟨a,ids⟩,ha⟩ : ∃ t, part[n]? = some t :=
    ⟨_,List.getElem?_eq_getElem (List.mem_range.mp hn)⟩
  simp [Function.comp_apply,(h.task_place ha).1,ha]

end Part
end Selection
