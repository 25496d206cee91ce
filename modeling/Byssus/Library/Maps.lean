import Byssus.Library.Lists

/-! Loops that fill an ordered map. -/
namespace Maps

open Std

variable {α β κ : Type*} [Ord κ] [TransOrd κ] [LawfulEqOrd κ]

/-- The elements of a list as an option: nothing for the empty list. -/
def nonempty (xs : List α) : Option (List α) := if xs = [] then none else some xs

@[simp] theorem nonempty_nil : nonempty ([] : List α) = none := by simp [nonempty]

@[simp] theorem nonempty_concat (xs : List α) (a : α) : nonempty (xs++[a]) = some (xs++[a]) := by
  simp [nonempty]

@[simp] theorem nonempty_getD (xs : List α) : (nonempty xs).getD [] = xs := by
  unfold nonempty
  split <;> simp_all

theorem nonempty_eq_some {xs ys : List α} : nonempty xs = some ys ↔ xs ≠ [] ∧ xs = ys := by
  unfold nonempty
  split <;> simp_all

omit [LawfulEqOrd κ] in
/-- Filling a map with the elements of a list, a later element replacing an
earlier one of the same key. -/
theorem getElem?_foldl_insert (key : α → κ) (l : List α) (k : κ) :
    (l.foldl (fun m a => m.insert (key a) a) (∅ : ExtTreeMap κ α))[k]? =
      (l.filter fun a => compare (key a) k = .eq).getLast? := by
  induction l using List.reverseRecOn with
  | nil => simp
  | append_singleton done a ih =>
    rw [List.foldl_append,List.filter_append]
    simp only [List.foldl_cons,List.foldl_nil,ExtTreeMap.getElem?_insert]
    by_cases h : compare (key a) k = .eq <;> simp [h,ih]

/-- Where one key gets one value, the order in which a map is filled is irrelevant. -/
theorem getElem?_foldl_insert_of_unique {key : α → κ} {val : α → β} {l : List α}
    (hl : ∀ a ∈ l, ∀ b ∈ l, key a = key b → val a = val b) (m : ExtTreeMap κ β) {k : κ} {v : β} :
    (l.foldl (fun m a => m.insert (key a) (val a)) m)[k]? = some v ↔
      (∃ a ∈ l, key a = k ∧ val a = v) ∨ ((∀ a ∈ l, key a ≠ k) ∧ m[k]? = some v) := by
  induction l using List.reverseRecOn with
  | nil => simp
  | append_singleton done x ih =>
    rw [List.foldl_append]
    simp only [List.foldl_cons,List.foldl_nil,ExtTreeMap.getElem?_insert,List.mem_append,
      List.mem_singleton]
    by_cases hk : key x = k
    · subst hk
      have hno : ¬∀ a, a ∈ done ∨ a = x → key a ≠ key x := fun h => h x (.inr rfl) rfl
      simp only [ReflCmp.compare_self,if_true,Option.some.injEq,hno,false_and,or_false]
      constructor
      · rintro rfl
        exact ⟨x,.inr rfl,rfl,rfl⟩
      · rintro ⟨a,ha,hk,rfl⟩
        exact (hl a (by simpa using ha) x (by simp) hk).symm
    · have hc : ¬compare (key x) k = .eq := by simpa [LawfulEqCmp.compare_eq_iff_eq] using hk
      rw [if_neg hc,ih fun a ha b hb => hl a (by simp [ha]) b (by simp [hb])]
      constructor
      · rintro (⟨a,ha,hak,hv⟩ | ⟨hno,hm⟩)
        · exact .inl ⟨a,.inl ha,hak,hv⟩
        · refine .inr ⟨?_,hm⟩
          rintro a (ha | rfl)
          · exact hno a ha
          · exact hk
      · rintro (⟨a,ha | rfl,hak,hv⟩ | ⟨hno,hm⟩)
        · exact .inl ⟨a,ha,hak,hv⟩
        · exact absurd hak hk
        · exact .inr ⟨fun a ha => hno a (.inl ha),hm⟩

/-- Collecting the elements of a list by key, in order. -/
theorem getElem?_foldl_group (key : α → κ) (l : List α) (k : κ) :
    (l.foldl (fun m a => m.alter (key a) fun as => some (as.getD [] ++ [a]))
      (∅ : ExtTreeMap κ (List α)))[k]? =
      nonempty (l.filter fun a => compare (key a) k = .eq) := by
  induction l using List.reverseRecOn with
  | nil => simp
  | append_singleton done a ih =>
    rw [List.foldl_append,List.filter_append]
    simp only [List.foldl_cons,List.foldl_nil,ExtTreeMap.getElem?_alter]
    by_cases h : compare (key a) k = .eq
    · have hk : key a = k := LawfulEqCmp.eq_of_compare h
      subst hk
      simp [ih]
    · simp [h,ih]

/-- The values of a map in the order of their keys. -/
def values (m : ExtTreeMap κ α) : List α := m.toList.map Prod.snd

theorem mem_values {m : ExtTreeMap κ α} {a : α} : a ∈ values m ↔ ∃ k : κ, m[k]? = some a := by
  simp [values,ExtTreeMap.mem_toList_iff_getElem?_eq_some]

/-- Maps that hold values with equal images have them in the same places. -/
theorem values_rel {f : α → β} {m m' : ExtTreeMap κ α}
    (h : ∀ k : κ, m[k]?.map f = m'[k]?.map f) :
    List.Forall₂ (fun a a' => f a = f a') (values m) (values m') := by
  have hmap : m.map (fun _ => f) = m'.map fun _ => f := by
    apply ExtTreeMap.ext_getElem?
    intro k
    rw [ExtTreeMap.getElem?_map,ExtTreeMap.getElem?_map]
    exact h k
  have hlists : (values m).map f = (values m').map f := by
    have ht := congrArg (fun m : ExtTreeMap κ β => m.toList.map Prod.snd) hmap
    simpa [values,ExtTreeMap.toList_map,Function.comp_def] using ht
  have hall : List.Forall₂ Eq ((values m).map f) ((values m').map f) :=
    List.forall₂_eq_eq_eq ▸ hlists
  rwa [List.forall₂_map_left_iff,List.forall₂_map_right_iff] at hall

theorem rel_imp {R S : α → β → Prop} (h : ∀ a b, R a b → S a b) {o : Option α} {p : Option β}
    (hr : Option.Rel R o p) : Option.Rel S o p := by
  cases hr with
  | none => exact .none
  | some hab => exact .some (h _ _ hab)

/-- The map holds, for every key, a value related to the last element of that
key among the elements that `p` selects. -/
def Tracks (R : α → β → Prop) (p : α → Bool) (key : α → κ) (done : List α)
    (m : ExtTreeMap κ β) : Prop :=
  ∀ k, Option.Rel R (done.filter fun a => p a ∧ compare (key a) k = .eq).getLast? m[k]?

namespace Tracks

variable {R S : α → β → Prop} {p : α → Bool} {key : α → κ} {done : List α} {m : ExtTreeMap κ β}

omit [LawfulEqOrd κ] in
theorem empty : Tracks R p key [] (∅ : ExtTreeMap κ β) := by
  intro k
  simp only [List.filter_nil,List.getLast?_nil,ExtTreeMap.getElem?_empty]
  exact .none

omit [LawfulEqOrd κ] in
theorem mono (h : Tracks R p key done m) (hRS : ∀ a b, R a b → S a b) :
    Tracks S p key done m := by
  intro k
  exact rel_imp hRS (h k)

omit [LawfulEqOrd κ] in
theorem skip (h : Tracks R p key done m) {a : α} (ha : p a = false) :
    Tracks R p key (done++[a]) m := by
  intro k
  have hk := h k
  simpa [List.filter_append,ha] using hk

theorem insert (h : Tracks R p key done m) {a : α} {b : β} (ha : p a = true) (hab : R a b) :
    Tracks R p key (done++[a]) (m.insert (key a) b) := by
  intro k
  rw [ExtTreeMap.getElem?_insert,List.filter_append]
  by_cases hk : key a = k
  · subst hk
    simpa [ha] using Option.Rel.some hab
  · simpa [hk,LawfulEqCmp.compare_eq_iff_eq] using h k

theorem of_get (h : Tracks R p key done m) {k : κ} {b : β} (hb : m[k]? = some b) :
    ∃ a ∈ done, p a = true ∧ key a = k ∧ R a b := by
  have hr := h k
  rw [hb] at hr
  cases hl : (done.filter fun a => p a ∧ compare (key a) k = .eq).getLast? with
  | none => rw [hl] at hr; cases hr
  | some a =>
    rw [hl] at hr
    cases hr with
    | some hab =>
      have hm := List.mem_of_getLast? hl
      simp only [List.mem_filter,decide_eq_true_eq] at hm
      exact ⟨a,hm.1,hm.2.1,LawfulEqCmp.eq_of_compare hm.2.2,hab⟩

theorem get_none (h : Tracks R p key done m) {k : κ} :
    m[k]? = none ↔ ∀ a ∈ done, p a = true → key a ≠ k := by
  have hr := h k
  constructor
  · intro hn a ha hp hk
    rw [hn] at hr
    cases hl : (done.filter fun a => p a ∧ compare (key a) k = .eq).getLast? with
    | none =>
      rw [List.getLast?_eq_none_iff,List.filter_eq_nil_iff] at hl
      exact hl a ha (by simp [hp,hk])
    | some a => rw [hl] at hr; cases hr
  · intro hn
    have hl : (done.filter fun a => p a ∧ compare (key a) k = .eq).getLast? = none := by
      rw [List.getLast?_eq_none_iff,List.filter_eq_nil_iff]
      intro a ha
      have hh := hn a ha
      simpa [LawfulEqCmp.compare_eq_iff_eq] using hh
    rw [hl] at hr
    cases hm : m[k]? with
    | none => rfl
    | some b => rw [hm] at hr; cases hr

end Tracks

/-- The maps hold related values for the keys that `P` selects. -/
def Alike {γ : Type*} (P : κ → Prop) (R : β → γ → Prop) (m : ExtTreeMap κ β)
    (m' : ExtTreeMap κ γ) : Prop :=
  ∀ k, P k → Option.Rel R m[k]? m'[k]?

namespace Alike

variable {γ : Type*} {P : κ → Prop} {R S : β → γ → Prop} {m : ExtTreeMap κ β}
  {m' : ExtTreeMap κ γ}

omit [LawfulEqOrd κ] in
theorem empty : Alike P R (∅ : ExtTreeMap κ β) (∅ : ExtTreeMap κ γ) := by
  intro k _
  simp only [ExtTreeMap.getElem?_empty]
  exact .none

omit [LawfulEqOrd κ] in
theorem mono (h : Alike P R m m') (hRS : ∀ a b, R a b → S a b) : Alike P S m m' :=
  fun k hk => rel_imp hRS (h k hk)

omit [LawfulEqOrd κ] in
theorem insert (h : Alike P R m m') {x : β} {y : γ} (hxy : R x y) (k₀ : κ) :
    Alike P R (m.insert k₀ x) (m'.insert k₀ y) := by
  intro k hk
  rw [ExtTreeMap.getElem?_insert,ExtTreeMap.getElem?_insert]
  split_ifs
  · exact .some hxy
  · exact h k hk

theorem insert_other (h : Alike P R m m') {k₀ : κ} (hk₀ : ¬P k₀) (x : β) :
    Alike P R (m.insert k₀ x) m' := by
  intro k hk
  rw [ExtTreeMap.getElem?_insert]
  split_ifs with hc
  · rw [LawfulEqCmp.eq_of_compare hc] at hk₀
    exact absurd hk hk₀
  · exact h k hk

end Alike
theorem getElem?_insert_ne {m : ExtTreeMap κ α} {a : α} {k k' : κ} (h : k ≠ k') :
    (m.insert k a)[k']? = m[k']? := by
  rw [ExtTreeMap.getElem?_insert,if_neg fun hc => h (LawfulEqCmp.eq_of_compare hc)]

/-- Every element has been filed under a key of its own, and nothing else: `m` holds what the
elements make, and `seen` has their keys. -/
structure Collected {γ : Type*} (key : α → Option κ) (make : α → Option β) (done : List α)
    (m : ExtTreeMap κ β) (seen : ExtTreeMap κ γ) : Prop where
  made : ∀ a ∈ done, ∃ k b, key a = some k ∧ make a = some b ∧ m[k]? = some b
  origin : ∀ k b, m[k]? = some b → ∃ a ∈ done, key a = some k ∧ make a = some b
  once : done.Pairwise fun a a' => key a ≠ key a'
  keys : ∀ k, seen[k]?.isSome = true ↔ ∃ a ∈ done, key a = some k

namespace Collected

variable {γ : Type*} {key : α → Option κ} {make : α → Option β} {done : List α}
  {m : ExtTreeMap κ β} {seen : ExtTreeMap κ γ}

omit [LawfulEqOrd κ] in
theorem empty : Collected key make [] (∅ : ExtTreeMap κ β) (∅ : ExtTreeMap κ γ) where
  made := by simp
  origin := by simp
  once := .nil
  keys := by simp

theorem push (h : Collected key make done m seen) {a : α} {k : κ} {b : β} (hk : key a = some k)
    (hb : make a = some b) (hnew : seen[k]? = none) (c : γ) :
    Collected key make (done++[a]) (m.insert k b) (seen.insert k c) := by
  have hother : ∀ a' ∈ done, key a' ≠ some k := by
    intro a' ha' hk'
    have hsome := (h.keys k).mpr ⟨a',ha',hk'⟩
    rw [hnew] at hsome
    cases hsome
  refine ⟨?_,?_,?_,?_⟩
  · intro a' ha'
    rcases List.mem_append.mp ha' with ha' | ha'
    · obtain ⟨k',b',hk',hb',hm⟩ := h.made a' ha'
      have hdiff : k ≠ k' := fun heq => hother a' ha' (heq ▸ hk')
      exact ⟨k',b',hk',hb',by rw [getElem?_insert_ne hdiff,hm]⟩
    · rw [List.mem_singleton.mp ha']
      exact ⟨k,b,hk,hb,ExtTreeMap.getElem?_insert_self⟩
  · intro k' b' hm
    by_cases hdiff : k = k'
    · subst hdiff
      rw [ExtTreeMap.getElem?_insert_self] at hm
      cases hm
      exact ⟨a,by simp,hk,hb⟩
    · rw [getElem?_insert_ne hdiff] at hm
      obtain ⟨a',ha',hk',hb'⟩ := h.origin k' b' hm
      exact ⟨a',by simp [ha'],hk',hb'⟩
  · refine List.pairwise_append.mpr ⟨h.once,List.pairwise_singleton _ _,fun a' ha' x hx => ?_⟩
    rw [List.mem_singleton.mp hx,hk]
    exact hother a' ha'
  · intro k'
    by_cases hdiff : k = k'
    · subst hdiff
      simp only [ExtTreeMap.getElem?_insert_self,Option.isSome_some,true_iff]
      exact ⟨a,by simp,hk⟩
    · rw [getElem?_insert_ne hdiff,h.keys]
      constructor
      · rintro ⟨a',ha',hk'⟩
        exact ⟨a',by simp [ha'],hk'⟩
      · rintro ⟨a',ha',hk'⟩
        rcases List.mem_append.mp ha' with ha' | ha'
        · exact ⟨a',ha',hk'⟩
        · rw [List.mem_singleton.mp ha',hk] at hk'
          exact absurd (Option.some.inj hk') hdiff

end Collected

/-- A loop gave the keys entries that `P` allows, and left the entries of other keys. -/
structure Overwrites (P : κ → β → Prop) (m m' : ExtTreeMap κ β) (keys : List κ) : Prop where
  written : ∀ k ∈ keys, ∃ b, m'[k]? = some b ∧ P k b
  kept : ∀ k ∉ keys, m'[k]? = m[k]?

namespace Overwrites

variable {γ : Type*} {P : κ → β → Prop} {m m' m'' : ExtTreeMap κ β} {keys keys' : List κ}

omit [LawfulEqOrd κ] in
theorem refl : Overwrites P m m [] := ⟨by simp,fun _ _ => rfl⟩

theorem insert {k : κ} {b : β} (hb : P k b) : Overwrites P m (m.insert k b) [k] where
  written := by
    intro k' hk'
    rw [List.mem_singleton.mp hk']
    exact ⟨b,ExtTreeMap.getElem?_insert_self,hb⟩
  kept := by
    intro k' hk'
    exact getElem?_insert_ne fun h => hk' (List.mem_singleton.mpr h.symm)

omit [LawfulEqOrd κ] in
theorem trans (h : Overwrites P m m' keys) (h' : Overwrites P m' m'' keys') :
    Overwrites P m m'' (keys++keys') where
  written := by
    intro k hk
    by_cases hk' : k ∈ keys'
    · exact h'.written k hk'
    · rw [h'.kept k hk']
      exact h.written k ((List.mem_append.mp hk).resolve_right hk')
  kept := by
    intro k hk
    rw [List.mem_append,not_or] at hk
    rw [h'.kept k hk.2,h.kept k hk.1]

omit [LawfulEqOrd κ] in
/-- A loop overwrites what its iterations overwrite; `g` is the map in the loop's state. -/
theorem foldl {f : γ → α → γ} {g : γ → ExtTreeMap κ β} {keys : α → List κ} {l : List α}
    (hf : ∀ c, ∀ a ∈ l, Overwrites P (g c) (g (f c a)) (keys a)) (c : γ) :
    Overwrites P (g c) (g (l.foldl f c)) (l.flatMap keys) := by
  induction l generalizing c with
  | nil => exact refl
  | cons a l ih =>
    exact (hf c a (by simp)).trans (ih (fun c b hb => hf c b (List.mem_cons_of_mem a hb)) (f c a))

omit [LawfulEqOrd κ] in
/-- Where an entry comes from. -/
theorem get (h : Overwrites P m m' keys) {k : κ} {b : β} (hb : m'[k]? = some b) :
    (k ∈ keys ∧ P k b) ∨ (k ∉ keys ∧ m[k]? = some b) := by
  by_cases hk : k ∈ keys
  · obtain ⟨b',hb',hP⟩ := h.written k hk
    rw [hb] at hb'
    cases hb'
    exact .inl ⟨hk,hP⟩
  · rw [h.kept k hk] at hb
    exact .inr ⟨hk,hb⟩

end Overwrites
end Maps
