import Byssus.Library.Program

/-! Pre- and postconditions of programs.  An outcome is a value or an error, and each has a
postcondition of its own; the rules follow how programs are composed. -/
namespace Program.Prog

variable {σ ε ε' α β : Type}

/-- From a state in `P` the program ends with a value and a state in `Q`, or with an error and a
state in `E`. -/
def Triple (P : σ → Prop) (x : Prog σ ε α) (Q : α → σ → Prop) (E : ε → σ → Prop) : Prop :=
  ∀ s, P s → (∀ a t, x.run s = (.ok a,t) → Q a t) ∧ ∀ e t, x.run s = (.error e,t) → E e t

namespace Triple

variable {P : σ → Prop} {Q : α → σ → Prop} {R : β → σ → Prop} {E : ε → σ → Prop}
  {x : Prog σ ε α}

theorem mono {P' : σ → Prop} {Q' : α → σ → Prop} {E' : ε → σ → Prop} (h : Triple P x Q E)
    (hP : ∀ s, P' s → P s) (hQ : ∀ a s, Q a s → Q' a s) (hE : ∀ e s, E e s → E' e s) :
    Triple P' x Q' E' :=
  fun s hs => ⟨fun a t ht => hQ a t ((h s (hP s hs)).1 a t ht),
    fun e t ht => hE e t ((h s (hP s hs)).2 e t ht)⟩

theorem bind {f : α → Prog σ ε β} (h : Triple P x Q E) (hf : ∀ a, Triple (Q a) (f a) R E) :
    Triple P (x >>= f) R E := by
  intro s hs
  constructor
  · intro b t hb
    rcases run_bind hb with ⟨e,-,he⟩ | ⟨a,u,hx,hfa⟩
    · cases he
    · exact (hf a u ((h s hs).1 a u hx)).1 b t hfa
  · intro e t he
    rcases run_bind he with ⟨e',hx,he'⟩ | ⟨a,u,hx,hfa⟩
    · cases he'
      exact (h s hs).2 e t hx
    · exact (hf a u ((h s hs).1 a u hx)).2 e t hfa

/-- An attempt returns what the program ends with. -/
theorem attempt {E' : ε' → σ → Prop} (h : Triple P x Q E) :
    Triple P (x.attempt : Prog σ ε' (Except ε α))
      (fun r s => (∀ a, r = .ok a → Q a s) ∧ ∀ e, r = .error e → E e s) E' := by
  intro s hs
  rw [run_attempt]
  constructor
  · intro r t hr
    cases hr
    exact ⟨fun a ha => (h s hs).1 a _ (Prod.ext ha rfl),fun e he => (h s hs).2 e _ (Prod.ext he rfl)⟩
  · intro e t he
    cases he

theorem mapError {g : ε → ε'} {E' : ε' → σ → Prop} (h : Triple P x Q E)
    (hE : ∀ e s, E e s → E' (g e) s) : Triple P (x.mapError g) Q E' := by
  intro s hs
  constructor
  · intro a t ha
    exact (h s hs).1 a t (run_mapError_ok ha)
  · intro e t he
    obtain ⟨r,hx,hr⟩ := run_mapError he
    cases r with
    | ok a => cases hr
    | error e' =>
      cases hr
      exact hE e' t ((h s hs).2 e' t hx)

theorem modify {f : σ → σ} {R : Unit → σ → Prop} (h : ∀ s, P s → R () (f s)) :
    Triple P (Prog.modify f) R E := by
  intro s hs
  rw [run_modify]
  exact ⟨fun a t ht => by cases ht; exact h s hs,fun e t ht => nomatch ht⟩

theorem gets {f : σ → α} (h : ∀ s, P s → Q (f s) s) : Triple P (Prog.gets f) Q E := by
  intro s hs
  rw [run_gets]
  exact ⟨fun a t ht => by cases ht; exact h s hs,fun e t ht => nomatch ht⟩

theorem pure {a : α} (h : ∀ s, P s → Q a s) : Triple P (Pure.pure a) Q E := by
  intro s hs
  rw [run_pure]
  exact ⟨fun b t ht => by cases ht; exact h s hs,fun e t ht => nomatch ht⟩

theorem fail {e : ε} (h : ∀ s, P s → E e s) : Triple P (Prog.fail e) Q E := by
  intro s hs
  rw [run_fail]
  exact ⟨fun a t ht => (nomatch ht),fun e' t ht => by cases ht; exact h s hs⟩

theorem ofExcept {r : Except ε α} (hok : ∀ a s, r = .ok a → P s → Q a s)
    (he : ∀ e s, r = .error e → P s → E e s) : Triple P (Prog.ofExcept r) Q E := by
  intro s hs
  rw [run_ofExcept]
  exact ⟨fun a t ht => by cases ht; exact hok a s rfl hs,
    fun e t ht => by cases ht; exact he e s rfl hs⟩

end Triple

/-- The program keeps `P` however it ends, and its values satisfy `Q`. -/
def Keeps (P : σ → Prop) (x : Prog σ ε α) (Q : α → Prop) : Prop :=
  Triple P x (fun a s => P s ∧ Q a) fun _ => P

namespace Keeps

variable {P : σ → Prop} {Q : α → Prop} {R : β → Prop} {x : Prog σ ε α}

theorem state (h : Keeps P x Q) {s : σ} (hs : P s) : P (x.run s).2 := by
  rcases hr : x.run s with ⟨e | a,t⟩
  · exact (h s hs).2 e t hr
  · exact ((h s hs).1 a t hr).1

theorem of_run (h : ∀ s, P s → P (x.run s).2) : Keeps P x fun _ => True :=
  fun s hs => ⟨fun a t ht => ⟨by rw [← show (x.run s).2 = t by rw [ht]]; exact h s hs,trivial⟩,
    fun e t ht => by rw [← show (x.run s).2 = t by rw [ht]]; exact h s hs⟩

/-- The rest may use what is known of the value. -/
theorem bind {f : α → Prog σ ε β} (h : Keeps P x Q) (hf : ∀ a, Q a → Keeps P (f a) R) :
    Keeps P (x >>= f) R :=
  Triple.bind h fun a s hs => hf a hs.2 s hs.1

theorem attempt (h : Keeps P x Q) :
    Keeps P (x.attempt : Prog σ ε' (Except ε α)) fun r => ∀ a, r = .ok a → Q a := by
  refine (Triple.attempt h).mono (fun _ hs => hs) (fun r s hr => ⟨?_,?_⟩) fun _ _ hs => hs
  · cases r with
    | ok a => exact (hr.1 a rfl).1
    | error e => exact hr.2 e rfl
  · exact fun a ha => (hr.1 a ha).2

theorem mapError {g : ε → ε'} (h : Keeps P x Q) : Keeps P (x.mapError g) Q :=
  Triple.mapError h fun _ _ hs => hs

theorem modify {f : σ → σ} (hf : ∀ s, P s → P (f s)) :
    Keeps P (Prog.modify f : Prog σ ε Unit) fun _ => True :=
  Triple.modify fun s hs => ⟨hf s hs,trivial⟩

theorem gets {f : σ → α} (hf : ∀ s, P s → Q (f s)) : Keeps P (Prog.gets f : Prog σ ε α) Q :=
  Triple.gets fun s hs => ⟨hs,hf s hs⟩

theorem pure {a : α} (ha : Q a) : Keeps P (Pure.pure a : Prog σ ε α) Q :=
  Triple.pure fun _ hs => ⟨hs,ha⟩

theorem fail {e : ε} : Keeps P (Prog.fail e : Prog σ ε α) Q := Triple.fail fun _ hs => hs

theorem ofExcept {r : Except ε α} (hr : ∀ a, r = .ok a → Q a) : Keeps P (Prog.ofExcept r) Q :=
  Triple.ofExcept (fun a _ ha hs => ⟨hs,hr a ha⟩) fun _ _ _ hs => hs

end Keeps
end Program.Prog
