import Byssus.Library.Selection
import Byssus.PlanFrozen

/-! The part of a plan that is about one group. -/
namespace Byssus

open Selection

/-- The finding names a member of the group. -/
def Finding.about (g : GroupId) : Finding → Bool
  | .conflict key _ _ => key.group = g
  | .sourceUnavailable key _ _ => key.group = g
  | .targetUnavailable key _ _ => key.group = g
  | .targetCollision _ members _ => members.any fun key => key.group = g
  | .relocationBlocked key _ => key.group = g

/-- The step is for a member or a record of the group. -/
def Action.about (g : GroupId) (a : Action) : Bool := a.key.group = g

namespace Plan

variable (p : Plan) (g : GroupId)

/-- Where the steps of the group stand. -/
def positions : List ℕ := Selection.positions (fun s => s.action.about g) p.steps

/-- The steps of the group in their order, which depend on one another by their places in this
list, and the findings about the group. -/
def restrict : Plan where
  steps := (p.positions g).filterMap fun i =>
    p.steps[i]?.map fun s => ⟨s.action,s.dependsOn.map (p.positions g).idxOf⟩
  findings := p.findings.filter (Finding.about g)

/-- The steps of the group depend on steps of the group only. -/
def Confined : Prop :=
  ∀ i ∈ p.positions g, ∀ s, p.steps[i]? = some s → ∀ j ∈ s.dependsOn, j ∈ p.positions g

end Plan

/-- One builder's steps and findings for the group are those of the other. -/
structure Builder.Part (g : GroupId) (b part : Builder) : Prop where
  steps : Selection.Part (Action.about g) b.steps part.steps
  findings : part.findings = b.findings.filter (Finding.about g)

namespace Builder.Part

variable {g : GroupId} {b part : Builder}

theorem phaseOrder_filter (h : b.Part g part) :
    (phaseOrder b.steps).filter (fun id => b.steps[id]?.any fun s => s.1.about g) =
      (phaseOrder part.steps).map (place (fun s => s.1.about g) b.steps) := by
  rw [phaseOrder_eq,phaseOrder_eq,List.filter_append,List.map_append]
  rw [h.steps.filter_range fun a => a.phase = 0,h.steps.filter_range fun a => a.phase ≠ 0]

theorem phaseOrder_nodup (steps : List (Action × List ℕ)) : (phaseOrder steps).Nodup :=
  (phaseOrder_perm steps).nodup_iff.mpr List.nodup_range

/-- The steps of the group stand where the order has them. -/
theorem positions_finish (h : b.Part g part) :
    b.finish.positions g = (phaseOrder part.steps).map fun n =>
      (phaseOrder b.steps).idxOf (place (fun s => s.1.about g) b.steps n) := by
  have hfinish : b.finish.positions g = Selection.positions
      (fun id => b.steps[id]?.any fun s => s.1.about g) (phaseOrder b.steps) := by
    apply List.SortedLT.eq_of_mem_iff positions_sorted positions_sorted
    intro i
    rw [mem_positions,mem_positions,finish_get]
    cases (phaseOrder b.steps)[i]? with
    | none => simp
    | some id =>
      cases hid : b.steps[id]? with
      | none => simp [hid]
      | some s => simp [hid]
  rw [hfinish,positions_of_nodup (phaseOrder_nodup _),h.phaseOrder_filter,List.map_map]
  rfl

/-- A step of the group has its place among the positions. -/
theorem idxOf_positions_finish (h : b.Part g part) {n : ℕ} (hn : n < part.steps.length) :
    (b.finish.positions g).idxOf
        ((phaseOrder b.steps).idxOf (place (fun s => s.1.about g) b.steps n)) =
      (phaseOrder part.steps).idxOf n := by
  have hnodup : (b.finish.positions g).Nodup := positions_sorted.nodup
  have hmem : n ∈ phaseOrder part.steps := mem_phaseOrder.mpr hn
  have hlt := List.idxOf_lt_length_of_mem hmem
  rw [h.positions_finish] at hnodup ⊢
  have hget := hnodup.idxOf_getElem ((phaseOrder part.steps).idxOf n) (by simpa using hlt)
  simpa using hget

/-- The final step that comes from a task of the part. -/
theorem finish_place (h : b.Part g part) {n : ℕ} {a : Action} {ids : List ℕ}
    (hn : part.steps[n]? = some (a,ids)) :
    b.finish.steps[(phaseOrder b.steps).idxOf (place (fun s => s.1.about g) b.steps n)]? =
      some ⟨a,(((ids.map (place (fun s => s.1.about g) b.steps)).map
        (phaseOrder b.steps).idxOf).insertionSort (· ≤ ·)).dedup⟩ := by
  have htask := (h.steps.task_place hn).1
  have hmem : place (fun s => s.1.about g) b.steps n ∈ phaseOrder b.steps :=
    mem_phaseOrder.mpr (List.getElem?_eq_some_iff.mp htask).1
  rw [finish_get,List.getElem?_idxOf hmem,Option.bind_some,htask]
  rfl

theorem mem_positions_finish (h : b.Part g part) {m : ℕ} (hm : m < part.steps.length) :
    (phaseOrder b.steps).idxOf (place (fun s => s.1.about g) b.steps m) ∈ b.finish.positions g := by
  rw [h.positions_finish]
  exact List.mem_map_of_mem (mem_phaseOrder.mpr hm)

/-- The group's part of the finished plan is the finished part. -/
theorem restrict_finish (h : b.Part g part) :
    b.finish.restrict g = part.finish ∧ b.finish.Confined g := by
  constructor
  · have hsteps : (b.finish.restrict g).steps = part.finish.steps := by
      show (b.finish.positions g).filterMap _ = (phaseOrder part.steps).filterMap _
      have hmap : (b.finish.positions g).filterMap (fun i => b.finish.steps[i]?.map fun s =>
          (⟨s.action,s.dependsOn.map (b.finish.positions g).idxOf⟩ : Step)) =
          (phaseOrder part.steps).filterMap fun n => b.finish.steps[(phaseOrder b.steps).idxOf
            (place (fun s => s.1.about g) b.steps n)]?.map fun s =>
              ⟨s.action,s.dependsOn.map (b.finish.positions g).idxOf⟩ := by
        conv_lhs => rw [h.positions_finish,List.filterMap_map]
        rw [h.positions_finish]
        rfl
      rw [hmap]
      apply List.filterMap_congr
      intro n hn
      obtain ⟨⟨a,ids⟩,ha⟩ : ∃ t, part.steps[n]? = some t :=
        ⟨_,List.getElem?_eq_getElem (mem_phaseOrder.mp hn)⟩
      rw [h.finish_place ha,ha,Option.map_some,Option.map_some]
      have hids := (h.steps.task_place ha).2
      rw [map_ascending]
      · rw [List.map_map,List.map_map]
        congr 4
        apply List.map_congr_left
        intro m hm
        exact h.idxOf_positions_finish (hids m hm)
      · simp only [List.map_map,List.mem_map,Function.comp_apply]
        rintro _ ⟨m,hm,rfl⟩ _ ⟨m',hm',rfl⟩ hlt
        exact idxOf_lt positions_sorted (h.mem_positions_finish (hids m hm))
          (h.mem_positions_finish (hids m' hm')) hlt
    have hfindings : (b.finish.restrict g).findings = part.finish.findings := h.findings.symm
    calc
      b.finish.restrict g = ⟨(b.finish.restrict g).steps,(b.finish.restrict g).findings⟩ := rfl
      _ = part.finish := by rw [hsteps,hfindings]
  · intro i hi s hs j hj
    rw [h.positions_finish] at hi
    obtain ⟨n,hn,rfl⟩ := List.mem_map.mp hi
    obtain ⟨⟨a,ids⟩,ha⟩ : ∃ t, part.steps[n]? = some t :=
      ⟨_,List.getElem?_eq_getElem (mem_phaseOrder.mp hn)⟩
    rw [h.finish_place ha] at hs
    cases hs
    rw [mem_ascending,List.map_map] at hj
    obtain ⟨m,hm,rfl⟩ := List.mem_map.mp hj
    exact h.mem_positions_finish ((h.steps.task_place ha).2 m hm)

end Builder.Part
end Byssus
