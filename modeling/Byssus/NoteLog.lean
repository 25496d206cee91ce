import Byssus.Notes

/-! What one update of the note log reports, and what it remembers. -/
namespace Byssus

/-- A note of the pass is about the key. -/
def Observed.Noted (observed : Observed) (key : Text × Text) : Prop :=
  ∃ n ∈ observed.notes, (noteIdentity n).1 = key

/-- The notes with this label are taken from the pass. -/
def Observed.Examines (observed : Observed) (label : Text) : Prop :=
  label ∈ observed.examined ∨ ∃ n ∈ observed.notes, (noteIdentity n).1.1 = label

theorem get_insert_notes {m : ActiveNotes} {k k₀ : Text × Text} {d : String} :
    (m.insert k₀ d)[k]? = if k₀ = k then some d else m[k]? := by
  rw [Std.ExtTreeMap.getElem?_insert]
  simp only [Std.LawfulEqCmp.compare_eq_iff_eq]

namespace NoteUpdate

/-- What the loop over the notes adds. -/
structure Raises (log : NoteLog) (notes : List Note) (u v : NoteUpdate) : Prop where
  raised : ∀ n, .raised n ∈ v.events ↔ .raised n ∈ u.events ∨
    n ∈ notes ∧ log.active[(noteIdentity n).1]? ≠ some (noteIdentity n).2
  cleared : ∀ g s, .cleared g s ∈ v.events ↔ .cleared g s ∈ u.events
  examined : ∀ l, l ∈ v.examined ↔ l ∈ u.examined ∨ ∃ n ∈ notes, (noteIdentity n).1.1 = l
  known : ∀ k, k ∈ v.current ↔ k ∈ u.current ∨ ∃ n ∈ notes, (noteIdentity n).1 = k
  current : ∀ k d, v.current[k]? = some d →
    u.current[k]? = some d ∨ ∃ n ∈ notes, noteIdentity n = (k,d)

theorem raises_step (log : NoteLog) (u : NoteUpdate) (n : Note) : Raises log [n] u (log.raise u n) where
  raised := by
    intro m
    by_cases h : log.active[(noteIdentity n).1]? ≠ some (noteIdentity n).2
    · simp only [NoteLog.raise,if_pos h,List.mem_append,List.mem_singleton,NoteEvent.raised.injEq]
      constructor
      · rintro (hm | rfl)
        · exact .inl hm
        · exact .inr ⟨rfl,h⟩
      · rintro (hm | ⟨rfl,-⟩)
        · exact .inl hm
        · exact .inr rfl
    · simp only [NoteLog.raise,if_neg h,List.mem_singleton]
      constructor
      · exact .inl
      · rintro (hm | ⟨rfl,hm⟩)
        · exact hm
        · exact absurd hm h
  cleared := by
    intro g s
    by_cases h : log.active[(noteIdentity n).1]? ≠ some (noteIdentity n).2 <;>
      simp [NoteLog.raise,h]
  examined := by simp [NoteLog.raise,or_comm,eq_comm]
  known := by simp [NoteLog.raise,or_comm]
  current := by
    intro k d h
    have h : (u.current.insert (noteIdentity n).1 (noteIdentity n).2)[k]? = some d := h
    rw [get_insert_notes] at h
    split at h
    · rename_i hk
      exact .inr ⟨n,List.mem_singleton_self n,Prod.ext hk (Option.some.inj h)⟩
    · exact .inl h

theorem raises_fold (log : NoteLog) (notes : List Note) (u : NoteUpdate) :
    Raises log notes u (notes.foldl log.raise u) := by
  induction notes generalizing u with
  | nil => exact ⟨by simp,by simp,by simp,by simp,fun _ _ h => .inl h⟩
  | cons n notes ih =>
    have hn := raises_step log u n
    have ih := ih (log.raise u n)
    rw [List.foldl_cons]
    constructor
    · intro m
      rw [ih.raised,hn.raised,List.mem_singleton,List.mem_cons,or_assoc,or_and_right]
    · intro g s
      rw [ih.cleared,hn.cleared]
    · intro l
      rw [ih.examined,hn.examined]
      simp [or_assoc]
    · intro k
      rw [ih.known,hn.known]
      simp [or_assoc]
    · intro k d h
      rcases ih.current k d h with h | ⟨m,hm,hk⟩
      · rcases hn.current k d h with h | ⟨m,hm,hk⟩
        · exact .inl h
        · exact .inr ⟨m,by simp [List.mem_singleton.mp hm],hk⟩
      · exact .inr ⟨m,List.mem_cons_of_mem n hm,hk⟩

/-- What the loop over the active notes does with them. -/
structure Keeps (entries : List ((Text × Text) × String)) (u v : NoteUpdate) : Prop where
  raised : ∀ n, .raised n ∈ v.events ↔ .raised n ∈ u.events
  cleared : ∀ g s, .cleared g s ∈ v.events ↔ .cleared g s ∈ u.events ∨
    (∃ d, ((g,s),d) ∈ entries) ∧ (g,s) ∉ u.current ∧ g ∈ u.examined
  examined : v.examined = u.examined
  current : ∀ k d, v.current[k]? = some d ↔ u.current[k]? = some d ∨
    (k,d) ∈ entries ∧ k ∉ u.current ∧ k.1 ∉ u.examined

theorem keeps_step (u : NoteUpdate) (e : (Text × Text) × String) : Keeps [e] u (u.keep e) := by
  obtain ⟨⟨g₀,s₀⟩,d₀⟩ := e
  have hentry : ∀ {g s : Text} {d : String}, ((g,s),d) ∈ [((g₀,s₀),d₀)] ↔
      (g = g₀ ∧ s = s₀) ∧ d = d₀ := by simp
  by_cases hin : (g₀,s₀) ∈ u.current
  · rw [show u.keep ((g₀,s₀),d₀) = u from if_pos hin]
    refine ⟨fun _ => Iff.rfl,?_,rfl,?_⟩
    · rintro g s
      refine ⟨.inl,?_⟩
      rintro (h | ⟨⟨d,hd⟩,hn,-⟩)
      · exact h
      · obtain ⟨⟨rfl,rfl⟩,-⟩ := hentry.mp hd
        exact absurd hin hn
    · rintro ⟨g,s⟩ d
      refine ⟨.inl,?_⟩
      rintro (h | ⟨hd,hn,-⟩)
      · exact h
      · obtain ⟨⟨rfl,rfl⟩,-⟩ := hentry.mp hd
        exact absurd hin hn
  by_cases hex : g₀ ∈ u.examined
  · have hstep : u.keep ((g₀,s₀),d₀) = {u with events := u.events++[.cleared g₀ s₀]} := by
      simp [keep,hin,hex]
    rw [hstep]
    refine ⟨by simp,?_,rfl,?_⟩
    · intro g s
      simp only [List.mem_append,List.mem_singleton,NoteEvent.cleared.injEq,Prod.mk.injEq]
      constructor
      · rintro (h | ⟨rfl,rfl⟩)
        · exact .inl h
        · exact .inr ⟨⟨d₀,⟨rfl,rfl⟩,rfl⟩,hin,hex⟩
      · rintro (h | ⟨⟨d,h,-⟩,-⟩)
        · exact .inl h
        · exact .inr h
    · rintro ⟨g,s⟩ d
      refine ⟨.inl,?_⟩
      rintro (h | ⟨hd,-,hn⟩)
      · exact h
      · obtain ⟨⟨rfl,rfl⟩,-⟩ := hentry.mp hd
        exact absurd hex hn
  · have hstep : u.keep ((g₀,s₀),d₀) = {u with current := u.current.insert (g₀,s₀) d₀} := by
      simp [keep,hin,hex]
    rw [hstep]
    refine ⟨fun _ => Iff.rfl,?_,rfl,?_⟩
    · intro g s
      refine ⟨.inl,?_⟩
      rintro (h | ⟨⟨d,hd⟩,-,hg⟩)
      · exact h
      · obtain ⟨⟨rfl,rfl⟩,-⟩ := hentry.mp hd
        exact absurd hg hex
    · rintro ⟨g,s⟩ d
      show (u.current.insert (g₀,s₀) d₀)[(g,s)]? = some d ↔ _
      rw [get_insert_notes]
      by_cases hk : (g₀,s₀) = (g,s)
      · cases hk
        simp [hin,hex,eq_comm]
      · rw [if_neg hk]
        refine ⟨.inl,?_⟩
        rintro (h | ⟨hd,-,-⟩)
        · exact h
        · obtain ⟨⟨rfl,rfl⟩,-⟩ := hentry.mp hd
          exact absurd rfl hk

theorem keeps_fold (entries : List ((Text × Text) × String)) (u : NoteUpdate)
    (hd : entries.Pairwise fun a b => a.1 ≠ b.1) :
    Keeps entries u (entries.foldl NoteUpdate.keep u) := by
  induction entries generalizing u with
  | nil => exact ⟨by simp,by simp,rfl,by simp⟩
  | cons e entries ih =>
    obtain ⟨hhead,htail⟩ := List.pairwise_cons.mp hd
    have he := keeps_step u e
    have ih := ih (u.keep e) htail
    -- the other keys are in `current` after the step if they were before
    have hother : ∀ {k : Text × Text} {d : String}, (k,d) ∈ entries →
        (k ∉ (u.keep e).current ↔ k ∉ u.current) := by
      intro k d hk
      have hne : ∀ d, (k,d) ∉ [e] := fun d h => hhead _ hk (by rw [← List.mem_singleton.mp h])
      simp only [Std.ExtTreeMap.mem_iff_isSome_getElem?,Option.isSome_iff_exists,he.current,hne,
        false_and,or_false]
    rw [List.foldl_cons]
    refine ⟨?_,?_,ih.examined.trans he.examined,?_⟩
    · intro n
      rw [ih.raised,he.raised]
    · intro g s
      rw [ih.cleared,he.cleared,he.examined]
      constructor
      · rintro ((h | ⟨⟨d,hm⟩,h⟩) | ⟨⟨d,hm⟩,hn,h⟩)
        · exact .inl h
        · exact .inr ⟨⟨d,by simp [List.mem_singleton.mp hm]⟩,h⟩
        · exact .inr ⟨⟨d,List.mem_cons_of_mem e hm⟩,(hother hm).mp hn,h⟩
      · rintro (h | ⟨⟨d,hm⟩,hn,h⟩)
        · exact .inl (.inl h)
        · rcases List.mem_cons.mp hm with heq | hm
          · exact .inl (.inr ⟨⟨d,by simp [heq]⟩,hn,h⟩)
          · exact .inr ⟨⟨d,hm⟩,(hother hm).mpr hn,h⟩
    · intro k d
      rw [ih.current,he.current,he.examined]
      constructor
      · rintro ((h | ⟨hm,h⟩) | ⟨hm,hn,h⟩)
        · exact .inl h
        · exact .inr ⟨by simp [List.mem_singleton.mp hm],h⟩
        · exact .inr ⟨List.mem_cons_of_mem e hm,(hother hm).mp hn,h⟩
      · rintro (h | ⟨hm,hn,h⟩)
        · exact .inl (.inl h)
        · rcases List.mem_cons.mp hm with heq | hm
          · exact .inl (.inr ⟨by simp [heq],hn,h⟩)
          · exact .inr ⟨hm,(hother hm).mpr hn,h⟩

end NoteUpdate

variable {log : NoteLog} {observed : Observed} {key : Text × Text} {d : String}

/-- What one update reports and remembers. -/
structure NoteLog.Updates (log : NoteLog) (observed : Observed) (log' : NoteLog)
    (events : List NoteEvent) : Prop where
  raised : ∀ n, .raised n ∈ events ↔
    n ∈ observed.notes ∧ log.active[(noteIdentity n).1]? ≠ some (noteIdentity n).2
  cleared : ∀ g s, .cleared g s ∈ events ↔
    (g,s) ∈ log.active ∧ ¬observed.Noted (g,s) ∧ observed.Examines g
  noted : ∀ k, observed.Noted k →
    ∃ n ∈ observed.notes, (noteIdentity n).1 = k ∧ log'.active[k]? = some (noteIdentity n).2
  kept : ∀ k d, ¬observed.Noted k →
    (log'.active[k]? = some d ↔ log.active[k]? = some d ∧ ¬observed.Examines k.1)

theorem update_spec (log : NoteLog) (observed : Observed) :
    log.Updates observed (log.update observed).1 (log.update observed).2 := by
  have h₁ := NoteUpdate.raises_fold log observed.notes ⟨[],∅,observed.examined⟩
  have h₂ := NoteUpdate.keeps_fold log.active.toList
    (observed.notes.foldl log.raise ⟨[],∅,observed.examined⟩) (by
      refine log.active.distinct_keys_toList.imp ?_
      intro a b hab heq
      exact hab (Std.LawfulEqCmp.compare_eq_iff_eq.mpr heq))
  have hknown : ∀ k, k ∈ (observed.notes.foldl log.raise ⟨[],∅,observed.examined⟩).current ↔
      observed.Noted k := by
    intro k
    rw [h₁.known]
    simp [Observed.Noted]
  have hexamined : ∀ l, l ∈ (observed.notes.foldl log.raise ⟨[],∅,observed.examined⟩).examined ↔
      observed.Examines l := h₁.examined
  constructor
  · intro n
    show .raised n ∈ (log.active.toList.foldl NoteUpdate.keep _).events ↔ _
    rw [h₂.raised,h₁.raised]
    simp
  · intro g s
    show .cleared g s ∈ (log.active.toList.foldl NoteUpdate.keep _).events ↔ _
    rw [h₂.cleared,h₁.cleared,hknown,hexamined,Std.ExtTreeMap.mem_iff_isSome_getElem?,
      Option.isSome_iff_exists]
    simp only [Std.ExtTreeMap.mem_toList_iff_getElem?_eq_some,List.not_mem_nil,false_or]
  · intro k hk
    obtain ⟨d,hd⟩ := Option.isSome_iff_exists.mp
      (Std.ExtTreeMap.mem_iff_isSome_getElem?.mp ((hknown k).mpr hk))
    rcases h₁.current k d hd with h | ⟨n,hn,hnk⟩
    · simp at h
    · refine ⟨n,hn,by rw [hnk],?_⟩
      rw [hnk]
      exact (h₂.current k d).mpr (.inl hd)
  · intro k d hk
    show (log.active.toList.foldl NoteUpdate.keep _).current[k]? = some d ↔ _
    have hnone : (observed.notes.foldl log.raise ⟨[],∅,observed.examined⟩).current[k]? = none := by
      exact Std.ExtTreeMap.getElem?_eq_none (mt (hknown k).mp hk)
    rw [h₂.current,hnone,hknown,hexamined,Std.ExtTreeMap.mem_toList_iff_getElem?_eq_some]
    simp [hk]

end Byssus
