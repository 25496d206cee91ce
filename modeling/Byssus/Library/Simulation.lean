import Byssus.Library.Program

/-! One program does what another does on states that are related.
The rules follow how programs are composed. -/
namespace Program

variable {σ τ ε α α' β β' : Type}

/-- From states in `R` both return, with values and states in `Q`, or both fail with one error
and states in `E`. -/
def Simulates (R : σ → τ → Prop) (x : Prog σ ε α) (y : Prog τ ε β) (Q : α → β → σ → τ → Prop)
    (E : σ → τ → Prop) : Prop :=
  ∀ s t, R s t → match x.run s, y.run t with
    | (.ok a,s'), (.ok b,t') => Q a b s' t'
    | (.error e,s'), (.error e',t') => e = e' ∧ E s' t'
    | _, _ => False

namespace Simulates

variable {R : σ → τ → Prop} {x : Prog σ ε α} {y : Prog τ ε β} {Q : α → β → σ → τ → Prop}
  {E : σ → τ → Prop} {f : α → Prog σ ε α'} {g : β → Prog τ ε β'} {Q' : α' → β' → σ → τ → Prop}

theorem bind (hx : Simulates R x y Q E) (hf : ∀ a b, Simulates (Q a b) (f a) (g b) Q' E) :
    Simulates R (x >>= f) (y >>= g) Q' E := by
  intro s t h
  have hx := hx s t h
  rw [Prog.run_bind_eq,Prog.run_bind_eq]
  rcases hs : x.run s with ⟨_ | a,s'⟩ <;> rcases ht : y.run t with ⟨_ | b,t'⟩ <;>
    simp only [hs,ht] at hx ⊢
  · exact hx
  · exact hf a b s' t' hx

/-- A change of one side alone keeps the states related. -/
theorem modify_left {R' : σ → τ → Prop} {h : σ → σ} {x : Unit → Prog σ ε α}
    (hR : ∀ s t, R' s t → R (h s) t) (hx : Simulates R (x ()) y Q E) :
    Simulates R' (Prog.modify h >>= x) y Q E := by
  intro s t hr
  rw [Prog.run_bind_modify]
  exact hx (h s) t (hR s t hr)

/-- The results are the same. -/
theorem result {x : Prog σ ε Unit} {y : Prog τ ε Unit} {s : σ} {t : τ}
    (h : Simulates R x y (fun _ _ => E) E) (hr : R s t) :
    (x.run s).1 = (y.run t).1 ∧ E (x.run s).2 (y.run t).2 := by
  have h := h s t hr
  rcases hs : x.run s with ⟨_ | a,s'⟩ <;> rcases ht : y.run t with ⟨_ | b,t'⟩ <;>
    simp only [hs,ht] at h ⊢
  · exact ⟨by rw [h.1],h.2⟩
  · exact ⟨trivial,h⟩

end Simulates
end Program
