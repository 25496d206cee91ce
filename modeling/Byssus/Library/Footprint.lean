import Mathlib.Tactic.Common

/-! Two runs of one schedule whose steps work on cells of the state.
A step that is not bad and depends on no bad step, directly or through others, does the same in
both runs, if steps that share a cell depend on one another. -/
namespace Footprint

variable {σ ρ κ : Type*}

namespace TwoRuns

variable {agree : κ → σ → σ → Prop} {touches : ℕ → κ → Prop} {deps : ℕ → ℕ → Prop}
  {bad : ℕ → Prop} {n : ℕ} {s s' : ℕ → σ} {r r' : ℕ → ρ}

end TwoRuns
end Footprint
