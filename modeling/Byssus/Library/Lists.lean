import Mathlib.Algebra.GroupWithZero.Nat
import Mathlib.Data.List.Induction
import Mathlib.Data.List.Sort

/-! Facts about lists used by the models of loops: an induction rule for a loop
over a list that keeps what it has already seen, and the pieces of a split. -/
namespace Lists

variable {α β : Type*}

/-- A statement about the elements of a list is decided along the list, whatever their type. -/
instance (priority := high) decidableForallMem (p : α → Prop) [DecidablePred p] (l : List α) :
    Decidable (∀ a ∈ l, p a) := List.decidableBAll p l

/-- The loop rule: what holds of nothing processed, and is kept by one more
iteration, holds of the whole list. -/
theorem foldl_induction {f : β → α → β} {P : List α → β → Prop} {b : β} (h0 : P [] b)
    (hs : ∀ done a b, P done b → P (done++[a]) (f b a)) (l : List α) : P l (l.foldl f b) := by
  induction l using List.reverseRecOn with
  | nil => exact h0
  | append_singleton done a ih =>
    rw [List.foldl_append]
    exact hs done a _ ih

/-- The loop rule where an iteration may use which part of the list it stands at. -/
theorem foldl_induction_prefix {f : β → α → β} {P : List α → β → Prop} {b : β} (l : List α)
    (h0 : P [] b) (hs : ∀ done a b, done++[a] <+: l → P done b → P (done++[a]) (f b a)) :
    P l (l.foldl f b) := by
  induction l using List.reverseRecOn with
  | nil => exact h0
  | append_singleton done a ih =>
    rw [List.foldl_append]
    apply hs done a _ (List.prefix_refl _)
    exact ih fun done' a' b' h => hs done' a' b' (h.trans (List.prefix_append _ _))

/-- What no iteration changes, the loop does not change. -/
theorem foldl_frame {γ : Type*} {f : β → α → β} {g : β → γ} (h : ∀ b a, g (f b a) = g b) (l : List α)
    (b : β) : g (l.foldl f b) = g b := by
  induction l generalizing b with
  | nil => rfl
  | cons a l ih => rw [List.foldl_cons,ih,h]

/-- A loop whose iterations each may make `Q` true, and never make it false. -/
theorem foldl_or_iff {f : β → α → β} {Q : β → Prop} {P : α → Prop}
    (h : ∀ b a, Q (f b a) ↔ Q b ∨ P a) (l : List α) (b : β) :
    Q (l.foldl f b) ↔ Q b ∨ ∃ a ∈ l, P a := by
  induction l generalizing b with
  | nil => simp
  | cons a l ih => simp [ih,h,or_assoc]

/-- Two loops, the second of which leaves out the elements that `p` does not select. -/
theorem foldl_filter_rel {γ : Type*} {R : β → γ → Prop} {p : α → Bool} {f : β → α → β}
    {f' : γ → α → γ} {l : List α}
    (hown : ∀ a ∈ l, p a = true → ∀ b c, R b c → R (f b a) (f' c a))
    (hother : ∀ a ∈ l, p a = false → ∀ b c, R b c → R (f b a) c) {b : β} {c : γ} (h : R b c) :
    R (l.foldl f b) ((l.filter p).foldl f' c) := by
  induction l generalizing b c with
  | nil => exact h
  | cons a l ih =>
    have hown' := fun a' ha' => hown a' (List.mem_cons_of_mem a ha')
    have hother' := fun a' ha' => hother a' (List.mem_cons_of_mem a ha')
    cases hp : p a with
    | true =>
      rw [List.filter_cons_of_pos hp]
      exact ih hown' hother' (hown a (by simp) hp b c h)
    | false =>
      rw [List.filter_cons_of_neg (by simp [hp])]
      exact ih hown' hother' (hother a (by simp) hp b c h)

/-- `P` holds of every element, given what precedes it. -/
def Everywhere (P : List α → α → Prop) (l : List α) : Prop :=
  ∀ i a, l[i]? = some a → P (l.take i) a

@[simp] theorem everywhere_nil (P : List α → α → Prop) : Everywhere P [] := by
  simp [Everywhere]

@[simp] theorem everywhere_concat {P : List α → α → Prop} {l : List α} {x : α} :
    Everywhere P (l++[x]) ↔ Everywhere P l ∧ P l x := by
  constructor
  · intro h
    constructor
    · intro i a ha
      have hi := (List.getElem?_eq_some_iff.mp ha).1
      have hp := h i a (by rw [List.getElem?_append_left hi,ha])
      rwa [List.take_append_of_le_length (by omega)] at hp
    · have hp := h l.length x (by simp)
      rwa [List.take_left'] at hp
      rfl
  · rintro ⟨h,hx⟩ i a ha
    have hi := (List.getElem?_eq_some_iff.mp ha).1
    rw [List.length_append,List.length_singleton] at hi
    by_cases hlt : i < l.length
    · rw [List.getElem?_append_left hlt] at ha
      rw [List.take_append_of_le_length (by omega)]
      exact h i a ha
    · have hlen : i = l.length := by omega
      subst hlen
      simp only [List.getElem?_concat_length,Option.some.injEq] at ha
      rw [List.take_left' rfl,← ha]
      exact hx

theorem eq_singleton_of_nodup {l : List α} {a : α} (hl : l.Nodup) (ha : a ∈ l)
    (h : ∀ b ∈ l, b = a) : l = [a] := by
  cases l with
  | nil => cases ha
  | cons x xs =>
    have hx : x = a := h x (by simp)
    have hxs : xs = [] := by
      rw [List.eq_nil_iff_forall_not_mem]
      intro b hb
      have hb' : b = x := by rw [hx,h b (by simp [hb])]
      subst hb'
      exact (List.nodup_cons.mp hl).1 hb
    rw [hx,hxs]

/-- In a list ordered by an asymmetric relation, the last element is the one
that follows all others. -/
theorem getLast?_eq_some_iff {r : α → α → Prop} {l : List α} (hl : l.Pairwise r)
    (hr : ∀ a b, r a b → ¬r b a) {a : α} :
    l.getLast? = some a ↔ a ∈ l ∧ ∀ b ∈ l, b = a ∨ r b a := by
  induction l using List.reverseRecOn with
  | nil => simp
  | append_singleton l x =>
    have hx : ∀ b ∈ l, r b x := fun b hb => (List.pairwise_append.mp hl).2.2 b hb x (by simp)
    constructor
    · intro h
      have hxa : x = a := by simpa using h
      subst hxa
      refine ⟨by simp,fun b hb => ?_⟩
      rcases List.mem_append.mp hb with hb | hb
      · exact .inr (hx b hb)
      · exact .inl (List.mem_singleton.mp hb)
    · rintro ⟨ha,hb⟩
      rcases hb x (by simp) with rfl | hxa
      · simp
      · rcases List.mem_append.mp ha with ha | ha
        · exact absurd hxa (hr a x (hx a ha))
        · simp [List.mem_singleton.mp ha]

/-- A stable sort by a rank of 0 or 1 lists the elements of rank 0, then the others. -/
theorem insertionSort_two_ranks (f : α → ℕ) (l : List α) (hf : ∀ a ∈ l, f a ≤ 1) :
    l.insertionSort (fun a b => f a ≤ f b) =
      l.filter (fun a => f a = 0) ++ l.filter (fun a => f a ≠ 0) := by
  induction l with
  | nil => rfl
  | cons x l ih =>
    have hx : f x ≤ 1 := hf x (by simp)
    rw [List.insertionSort_cons,ih fun a ha => hf a (by simp [ha])]
    by_cases h0 : f x = 0
    · have hle : ∀ ys : List α, ys.orderedInsert (fun a b => f a ≤ f b) x = x::ys := by
        intro ys
        cases ys <;> simp [h0]
      simp [hle,h0]
    · have hz : ∀ zs : List α, (∀ z ∈ zs, f z = 0) → ∀ ys : List α, (∀ y ∈ ys, f y ≠ 0) →
          (zs++ys).orderedInsert (fun a b => f a ≤ f b) x = zs++x::ys := by
        intro zs hzs ys hys
        induction zs with
        | nil =>
          cases ys with
          | nil => rfl
          | cons y ys =>
            have hy : f y ≠ 0 := hys y (by simp)
            have hxy : f x ≤ f y := by omega
            simp [hxy]
        | cons z zs ihz =>
          have hz0 : f z = 0 := hzs z (by simp)
          have hxz : ¬f x ≤ f z := by omega
          simp [hxz,ihz fun a ha => hzs a (by simp [ha])]
      rw [hz _ (by simp) _ (by simp)]
      simp [h0]

theorem filterMap_range_filter (xs : List α) (p : α → Bool) :
    ((List.range xs.length).filter fun i => (xs[i]?).any p).filterMap (fun i => xs[i]?) =
      xs.filter p := by
  induction xs with
  | nil => rfl
  | cons x xs ih =>
    rw [List.length_cons,List.range_succ_eq_map,List.filter_cons,List.filter_map]
    have ht : ((List.range xs.length).filter
        ((fun i => ((x::xs)[i]?).any p) ∘ Nat.succ)).filterMap
          ((fun i => (x::xs)[i]?) ∘ Nat.succ) = xs.filter p := by
      simpa [Function.comp_def] using ih
    by_cases hp : p x = true
    · simpa [hp,List.filterMap_map] using ht
    · simpa [hp,List.filterMap_map] using ht

theorem getElem?_filterMap {f : α → Option β} {xs : List α} (h : ∀ a ∈ xs, (f a).isSome) (i : ℕ) :
    (xs.filterMap f)[i]? = xs[i]?.bind f := by
  induction xs generalizing i with
  | nil => simp
  | cons x xs ih =>
    obtain ⟨b,hb⟩ := Option.isSome_iff_exists.mp (h x (by simp))
    cases i with
    | zero => simp [hb]
    | succ i => simpa [hb] using ih (fun a ha => h a (by simp [ha])) i

/-- Positions of a list whose selected elements are pairwise different by `r`. -/
theorem index_unique {f : α → Option β} {r : β → β → Prop} {xs : List α}
    (h : (xs.filterMap f).Pairwise r) {i j : ℕ} {a a' : α} {b b' : β} (hi : xs[i]? = some a)
    (hj : xs[j]? = some a') (hb : f a = some b) (hb' : f a' = some b')
    (hr : ¬r b b' ∧ ¬r b' b) : i = j := by
  rw [List.pairwise_filterMap,List.pairwise_iff_getElem] at h
  obtain ⟨hil,rfl⟩ := List.getElem?_eq_some_iff.mp hi
  obtain ⟨hjl,rfl⟩ := List.getElem?_eq_some_iff.mp hj
  by_contra hne
  rcases Nat.lt_or_gt_of_ne hne with hlt | hlt
  · exact hr.1 (h i j hil hjl hlt b hb b' hb')
  · exact hr.2 (h j i hjl hil hlt b' hb' b hb)

/-- Where the elements that satisfy `p` come first, they precede the others. -/
theorem index_lt_of_filter_append {p : α → Bool} {xs ys : List α}
    (h : xs = ys.filter p ++ ys.filter fun a => !p a) {i j : ℕ} {a b : α} (hi : xs[i]? = some a)
    (hj : xs[j]? = some b) (ha : p a = true) (hb : p b = false) : i < j := by
  subst h
  by_cases hil : i < (ys.filter p).length
  · by_cases hjl : j < (ys.filter p).length
    · rw [List.getElem?_append_left hjl] at hj
      have hm := List.mem_filter.mp (List.mem_of_getElem? hj)
      rw [hb] at hm
      cases hm.2
    · omega
  · rw [List.getElem?_append_right (by omega)] at hi
    have hm := List.mem_filter.mp (List.mem_of_getElem? hi)
    rw [ha] at hm
    cases hm.2

theorem mem_intercalate {a b : α} {ls : List (List α)} (h : b ∈ [a].intercalate ls) :
    b = a ∨ ∃ l ∈ ls, b ∈ l := by
  induction ls with
  | nil => simp at h
  | cons l ls ih =>
    cases ls with
    | nil =>
      rw [List.intercalate_singleton] at h
      exact .inr ⟨l,by simp,h⟩
    | cons l' ls =>
      rw [List.intercalate_cons_cons,List.mem_append,List.mem_append] at h
      rcases h with (h | h) | h
      · exact .inr ⟨l,by simp,h⟩
      · exact .inl (List.mem_singleton.mp h)
      · rcases ih h with h | ⟨k,hk,hb⟩
        · exact .inl h
        · exact .inr ⟨k,by simp [hk],hb⟩

/-- What is joined ends as its last part does. -/
theorem getLast?_intercalate {a b : α} {ls : List (List α)} (hne : ∀ l ∈ ls, l ≠ [])
    (h : ([a].intercalate ls).getLast? = some b) : ∃ l ∈ ls, b ∈ l := by
  induction ls with
  | nil => simp at h
  | cons l ls ih =>
    cases ls with
    | nil =>
      rw [List.intercalate_singleton] at h
      exact ⟨l,by simp,List.mem_of_getLast? h⟩
    | cons l' ls =>
      have htail : [a].intercalate (l'::ls) ≠ [] := by
        have hl := hne l' (by simp)
        cases ls <;> simp [hl]
      rw [List.intercalate_cons_cons,List.getLast?_append_of_ne_nil _ htail] at h
      obtain ⟨k,hk,hb⟩ := ih (fun k hk => hne k (by simp [hk])) h
      exact ⟨k,by simp [hk],hb⟩

variable [BEq α] [LawfulBEq α]

theorem notMem_of_mem_splitOn {a : α} {xs piece : List α} (h : piece ∈ xs.splitOn a) :
    a ∉ piece := by
  induction xs generalizing piece with
  | nil => simp_all
  | cons x xs ih =>
    rw [List.splitOn_cons_eq_if_modifyHead] at h
    split at h
    · rcases List.mem_cons.mp h with rfl | h
      · simp
      · exact ih h
    · rename_i hx
      obtain ⟨hd,tl,hsp⟩ := List.exists_cons_of_ne_nil (List.splitOn_ne_nil a xs)
      rw [hsp,List.modifyHead_cons] at h
      rcases List.mem_cons.mp h with rfl | h
      · have hhd : a ∉ hd := ih (by simp [hsp])
        have hax : a ≠ x := by
          rintro rfl
          simp at hx
        simp [hhd,hax]
      · exact ih (by simp [hsp,h])

omit [LawfulBEq α] in
theorem mem_of_mem_splitOn {a b : α} {xs piece : List α} (h : piece ∈ xs.splitOn a)
    (hb : b ∈ piece) : b ∈ xs := by
  induction xs generalizing piece with
  | nil => simp_all
  | cons x xs ih =>
    rw [List.splitOn_cons_eq_if_modifyHead] at h
    obtain ⟨hd,tl,hsp⟩ := List.exists_cons_of_ne_nil (List.splitOn_ne_nil a xs)
    split at h
    · rcases List.mem_cons.mp h with rfl | h
      · simp at hb
      · exact List.mem_cons_of_mem _ (ih h hb)
    · rw [hsp,List.modifyHead_cons] at h
      rcases List.mem_cons.mp h with rfl | h
      · rcases List.mem_cons.mp hb with rfl | hb
        · simp
        · exact List.mem_cons_of_mem _ (ih (by simp [hsp]) hb)
      · exact List.mem_cons_of_mem _ (ih (by simp [hsp,h]) hb)

/-- Lines that each end with `a` are read back; nothing follows the last of them. -/
theorem splitOn_terminated {a : α} {lines : List (List α)} (h : ∀ l ∈ lines, a ∉ l) :
    (lines.flatMap fun l => l++[a]).splitOn a = lines++[[]] := by
  have htext : (lines.flatMap fun l => l++[a]) = List.intercalate [a] (lines++[[]]) := by
    clear h
    induction lines with
    | nil => rfl
    | cons l lines ih =>
      rw [List.flatMap_cons,ih,List.cons_append]
      cases lines <;> simp [List.intercalate_cons_cons]
  rw [htext]
  refine List.splitOn_intercalate a (fun l hl => ?_) (by simp)
  rcases List.mem_append.mp hl with hl | hl
  · exact h l hl
  · simp [List.mem_singleton.mp hl]

/-- Sorting depends only on how an element compares with those behind it. -/
theorem insertionSort_congr {α : Type*} {r r' : α → α → Prop} [DecidableRel r] [DecidableRel r']
    {l : List α} (h : l.Pairwise fun a b => r a b ↔ r' a b) :
    l.insertionSort r = l.insertionSort r' := by
  have hinsert : ∀ (a : α) (m : List α), (∀ b ∈ m, r a b ↔ r' a b) →
      m.orderedInsert r a = m.orderedInsert r' a := by
    intro a m
    induction m with
    | nil => exact fun _ => rfl
    | cons b m ih =>
      intro hm
      have hb := hm b (by simp)
      have hrest := ih fun c hc => hm c (by simp [hc])
      by_cases hab : r a b
      · rw [List.orderedInsert,List.orderedInsert,if_pos hab,if_pos (hb.mp hab)]
      · rw [List.orderedInsert,List.orderedInsert,if_neg hab,if_neg (mt hb.mpr hab),hrest]
  induction l with
  | nil => rfl
  | cons a l ih =>
    obtain ⟨ha,hl⟩ := List.pairwise_cons.mp h
    rw [List.insertionSort_cons,List.insertionSort_cons,ih hl]
    exact hinsert a _ fun b hb => ha b ((List.mem_insertionSort r').mp hb)

theorem forall₂_mem {α β : Type*} {R : α → β → Prop} {l : List α} {l' : List β}
    (h : List.Forall₂ R l l') : List.Forall₂ (fun a b => a ∈ l ∧ b ∈ l' ∧ R a b) l l' := by
  induction h with
  | nil => exact .nil
  | cons hab _ ih =>
    exact .cons ⟨by simp,by simp,hab⟩
      (ih.imp fun a b ⟨ha,hb,hr⟩ => ⟨List.mem_cons_of_mem _ ha,List.mem_cons_of_mem _ hb,hr⟩)

end Lists
