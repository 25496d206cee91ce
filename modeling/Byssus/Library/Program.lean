import Mathlib.Data.List.Basic

/-! Programs over a state that may fail.  A failing program keeps the state
changes made before the failure.  A run of a composed program is taken apart by
`run_bind`: either its first part failed, or the rest ran from where it ended. -/
namespace Program

theorem ok_of_toOption {ε α : Type} {x : Except ε α} {a : α} (h : x.toOption = some a) :
    x = .ok a := by
  cases x with
  | error e => cases h
  | ok b =>
    cases h
    rfl

theorem eq_of_toOption_map {ε α β : Type} {x : Except ε α} {a : α} {f : α → β} {b : β}
    (h : x.toOption.map f = some b) (ha : x = .ok a) : f a = b := by
  subst ha
  exact Option.some.inj h

/-- The rule for a loop that ends well, where a step may use which part of the list it stands
at. -/
theorem foldlM_ok_prefix {ε α β : Type} {f : β → α → Except ε β} {P : List α → β → Prop}
    {l : List α} {b b' : β} (h0 : P [] b)
    (hf : ∀ done a b c, done++[a] <+: l → P done b → f b a = .ok c → P (done++[a]) c)
    (h : l.foldlM f b = .ok b') : P l b' := by
  have hloop : ∀ rest done b, done++rest = l → P done b → rest.foldlM f b = .ok b' → P l b' := by
    intro rest
    induction rest with
    | nil =>
      intro done b hl hb h
      cases h
      rwa [← hl,List.append_nil]
    | cons a rest ih =>
      intro done b hl hb h
      rw [List.foldlM_cons] at h
      cases hc : f b a with
      | error e =>
        rw [hc] at h
        cases h
      | ok c =>
        rw [hc] at h
        have hl' : (done++[a])++rest = l := by rw [← hl,List.append_assoc]; rfl
        exact ih (done++[a]) c hl' (hf done a b c ⟨rest,hl'⟩ hb hc) h
  exact hloop l [] b rfl h0 h

/-- A loop ends well iff each of its elements lets a step end well, from whatever state. -/
theorem foldlM_ok_iff {ε α β : Type} {f : β → α → Except ε β} {P : α → Prop}
    (hf : ∀ b a, (∃ c, f b a = .ok c) ↔ P a) (l : List α) (b : β) :
    (∃ c, l.foldlM f b = .ok c) ↔ ∀ a ∈ l, P a := by
  induction l generalizing b with
  | nil => simp [pure,Except.pure]
  | cons a l ih =>
    rw [List.foldlM_cons,List.forall_mem_cons]
    cases hc : f b a with
    | error e =>
      have hno : ¬P a := by
        rw [← hf b a,hc]
        simp
      simp [bind,Except.bind,hno]
    | ok c => simpa [bind,Except.bind,(hf b a).mp ⟨c,hc⟩] using ih c

/-- What the start has and every step keeps, the result of a loop has. -/
theorem foldlM_ok_induction {ε α β : Type} {f : β → α → Except ε β} {P : β → Prop} {l : List α}
    {b b' : β} (hf : ∀ b a c, P b → f b a = .ok c → P c) (hb : P b) (h : l.foldlM f b = .ok b') :
    P b' := by
  induction l generalizing b with
  | nil =>
    cases h
    exact hb
  | cons a l ih =>
    rw [List.foldlM_cons] at h
    cases hc : f b a with
    | error e =>
      rw [hc] at h
      cases h
    | ok c =>
      rw [hc] at h
      exact ih (hf b a c hb hc) h

/-- A program over `σ` that returns an `α` or fails with an `ε`. -/
def Prog (σ ε α : Type) := σ → Except ε α × σ

namespace Prog

variable {σ ε ε' α β : Type}

def run (x : Prog σ ε α) (s : σ) : Except ε α × σ := x s

instance : Monad (Prog σ ε) where
  pure a := fun s => (.ok a,s)
  bind x f := fun s =>
    match x.run s with
    | (.ok a,t) => (f a).run t
    | (.error e,t) => (.error e,t)

def fail (e : ε) : Prog σ ε α := fun s => (.error e,s)

def modify (f : σ → σ) : Prog σ ε Unit := fun s => (.ok (),f s)

def gets (f : σ → α) : Prog σ ε α := fun s => (.ok (f s),s)

/-- A result that is known already. -/
def ofExcept (r : Except ε α) : Prog σ ε α := fun s => (r,s)

/-- The outcome as a value; nothing fails here. -/
def attempt (x : Prog σ ε α) : Prog σ ε' (Except ε α) := fun s => (.ok (x.run s).1,(x.run s).2)

def mapError (f : ε → ε') (x : Prog σ ε α) : Prog σ ε' α := fun s =>
  ((x.run s).1.mapError f,(x.run s).2)

variable {s t : σ} {r : Except ε α}

@[simp] theorem run_pure (a : α) : (pure a : Prog σ ε α).run s = (.ok a,s) := rfl
@[simp] theorem run_fail (e : ε) : (fail e : Prog σ ε α).run s = (.error e,s) := rfl
@[simp] theorem run_modify (f : σ → σ) : (modify f : Prog σ ε Unit).run s = (.ok (),f s) := rfl
@[simp] theorem run_gets (f : σ → α) : (gets f : Prog σ ε α).run s = (.ok (f s),s) := rfl
@[simp] theorem run_ofExcept (r : Except ε α) : (ofExcept r : Prog σ ε α).run s = (r,s) := rfl
@[simp] theorem run_bind_modify (f : σ → σ) (g : Unit → Prog σ ε β) :
    (modify f >>= g).run s = (g ()).run (f s) := rfl
@[simp] theorem run_bind_gets (f : σ → α) (g : α → Prog σ ε β) :
    (gets f >>= g).run s = (g (f s)).run s := rfl
@[simp] theorem run_bind_attempt (x : Prog σ ε α) (g : Except ε α → Prog σ ε' β) :
    (x.attempt >>= g).run s = (g (x.run s).1).run (x.run s).2 := rfl
@[simp] theorem run_attempt (x : Prog σ ε α) :
    (x.attempt : Prog σ ε' _).run s = (.ok (x.run s).1,(x.run s).2) := rfl

theorem run_bind_eq (x : Prog σ ε α) (f : α → Prog σ ε β) (s : σ) :
    (x >>= f).run s = match x.run s with
      | (.ok a,t) => (f a).run t
      | (.error e,t) => (.error e,t) := rfl

theorem run_mapError_eq (x : Prog σ ε α) (f : ε → ε') (s : σ) :
    (x.mapError f).run s = ((x.run s).1.mapError f,(x.run s).2) := rfl

theorem run_bind {x : Prog σ ε α} {f : α → Prog σ ε β} {r : Except ε β}
    (h : (x >>= f).run s = (r,t)) :
    (∃ e, x.run s = (.error e,t) ∧ r = .error e) ∨
      ∃ a u, x.run s = (.ok a,u) ∧ (f a).run u = (r,t) := by
  change (match x.run s with
    | (.ok a,t) => (f a).run t
    | (.error e,t) => (.error e,t)) = (r,t) at h
  split at h
  · rename_i a u hx
    exact .inr ⟨a,u,hx,h⟩
  · rename_i e u hx
    simp only [Prod.mk.injEq] at h
    obtain ⟨rfl,rfl⟩ := h
    exact .inl ⟨e,hx,rfl⟩

theorem run_mapError {x : Prog σ ε α} {f : ε → ε'} {r : Except ε' α}
    (h : (x.mapError f).run s = (r,t)) :
    ∃ r', x.run s = (r',t) ∧ r = r'.mapError f := by
  simp only [run,mapError,Prod.mk.injEq] at h
  exact ⟨(x.run s).1,by rw [← h.2]; rfl,h.1.symm⟩

/-- A mapped error is one of the program; a value is returned as it is. -/
theorem run_mapError_ok {x : Prog σ ε α} {f : ε → ε'} {a : α}
    (h : (x.mapError f).run s = (.ok a,t)) : x.run s = (.ok a,t) := by
  obtain ⟨r',hx,hr⟩ := run_mapError h
  cases r' with
  | ok b => cases hr; exact hx
  | error e => cases hr

theorem run_mapError_error {x : Prog σ ε α} {f : ε → ε'} {e : ε'}
    (h : (x.mapError f).run s = (.error e,t)) : ∃ e', x.run s = (.error e',t) := by
  obtain ⟨r',hx,hr⟩ := run_mapError h
  cases r' with
  | ok b => cases hr
  | error e' => exact ⟨e',hx⟩

end Prog
end Program
