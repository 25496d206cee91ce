import Byssus.GroupInput
import Byssus.GroupPlan

/-! What is planned for a group depends on that group only.
The planner's run on the group's part of the input is compared with its run on the whole
input: it has the group's steps and findings and no others. -/
namespace Byssus

open Selection Std

variable {input : PlanInput} {g : GroupId}

/-- The builders of the two runs, the first with at least the steps `old`. -/
structure Alike (input : PlanInput) (g : GroupId) (old : List (Action × List ℕ))
    (b part : Builder) : Prop where
  builders : b.Part g part
  input_eq : b.input = input
  part_eq : part.input = input.restrict g
  old : old <+: b.steps

/-- The step `id` of the one run is the step `id'` of the other. -/
abbrev SameStep (g : GroupId) (steps : List (Action × List ℕ)) : ℕ → ℕ → Prop :=
  At (fun s => s.1.about g) steps

theorem SameStep.extend {steps steps' : List (Action × List ℕ)} (h : steps <+: steps') {i n : ℕ}
    (hat : SameStep g steps i n) : SameStep g steps' i n := by
  obtain ⟨new,rfl⟩ := h
  induction new using List.reverseRecOn with
  | nil => simpa using hat
  | append_singleton new s ih =>
    rw [← List.append_assoc]
    exact At.concat ih s

namespace Alike

variable {old : List (Action × List ℕ)} {b part : Builder} {a : Action} {ids ids' : List ℕ}
  {f : Finding}

theorem push (h : Alike input g old b part) (ha : a.about g = true)
    (hids : List.Forall₂ (SameStep g old) ids ids') :
    Alike input g old (b.push a ids).1 (part.push a ids').1 ∧
      SameStep g (b.push a ids).1.steps b.steps.length part.steps.length := by
  refine ⟨⟨⟨?_,h.builders.findings⟩,h.input_eq,h.part_eq,h.old.trans (List.prefix_append _ _)⟩,?_⟩
  · exact h.builders.steps.own ha (hids.imp fun _ _ hat => hat.extend h.old)
  · rw [h.builders.steps.length_eq]
    exact at_length ha

theorem push_other (h : Alike input g old b part) (ha : a.about g = false) :
    Alike input g old (b.push a ids).1 part :=
  ⟨⟨h.builders.steps.other ha,h.builders.findings⟩,h.input_eq,h.part_eq,
    h.old.trans (List.prefix_append _ _)⟩

theorem report (h : Alike input g old b part) (hf : f.about g = true) :
    Alike input g old (b.report f) (part.report f) := by
  refine ⟨⟨h.builders.steps,?_⟩,h.input_eq,h.part_eq,h.old⟩
  show part.findings++[f] = (b.findings++[f]).filter (Finding.about g)
  rw [List.filter_append,h.builders.findings]
  simp [hf]

theorem report_other (h : Alike input g old b part) (hf : f.about g = false) :
    Alike input g old (b.report f) part := by
  refine ⟨⟨h.builders.steps,?_⟩,h.input_eq,h.part_eq,h.old⟩
  show part.findings = (b.findings++[f]).filter (Finding.about g)
  rw [List.filter_append,h.builders.findings]
  simp [hf]

/-- All steps so far may be depended on. -/
theorem settle (h : Alike input g old b part) : Alike input g b.steps b part :=
  ⟨h.builders,h.input_eq,h.part_eq,List.prefix_rfl⟩

end Alike

/-! ### Collisions -/

section
variable {old : List (Action × List ℕ)}

theorem resolveTarget_own (hi : input.Isolated g) {t : Location} (ht : t ∈ input.targetsOf g)
    (hne : membersAt input t ≠ []) {acc acc' : Builder × Accepted}
    (h : Alike input g old acc.1 acc'.1) :
    Alike input g old (resolveTarget acc (t,membersAt input t)).1
      (resolveTarget acc' (t,membersAt input t)).1 := by
  obtain ⟨b,accepted⟩ := acc
  obtain ⟨part,accepted'⟩ := acc'
  have hm : ∀ d ∈ membersAt input t, d.key.group = g := fun d hd => group_of_membersAt hi ht hd
  generalize membersAt input t = members at hm hne
  match members with
  | [] => exact absurd rfl hne
  | [d] => exact h
  | d::d'::rest =>
    have hsort : ∀ e ∈ sortByKey (d::d'::rest), e.key.group = g :=
      fun e he => hm e ((sortByKey_perm _).mem_iff.mp he)
    have hfind := find_verified_restrict ht hsort
    have habout : ∀ kept, (Finding.targetCollision t
        ((sortByKey (d::d'::rest)).map DesiredMount.key) kept).about g = true := by
      intro kept
      have hd : d ∈ sortByKey (d::d'::rest) := (sortByKey_perm _).mem_iff.mpr (by simp)
      simp only [Finding.about,List.any_eq_true,List.mem_map,decide_eq_true_eq]
      exact ⟨d.key,⟨d,hd,rfl⟩,hsort d hd⟩
    simp only [resolveTarget]
    rw [h.input_eq,h.part_eq,hfind]
    exact h.report (habout _)

theorem resolveTarget_other {t : Location} (ht : t ∉ input.targetsOf g)
    {acc : Builder × Accepted} {part : Builder} (h : Alike input g old acc.1 part) :
    Alike input g old (resolveTarget acc (t,membersAt input t)).1 part := by
  obtain ⟨b,accepted⟩ := acc
  have hm : ∀ d ∈ membersAt input t, d.key.group ≠ g := by
    intro d hd hg
    obtain ⟨hmem,-,rfl⟩ := mem_membersAt.mp hd
    subst hg
    exact ht (PlanInput.mem_targetsOf_of_desired hmem)
  generalize membersAt input t = members at hm
  have habout : ∀ kept, (Finding.targetCollision t
      ((sortByKey members).map DesiredMount.key) kept).about g = false := by
    intro kept
    simp only [Finding.about,List.any_eq_false,List.mem_map,decide_eq_true_eq]
    rintro _ ⟨d,hd,rfl⟩
    exact hm d ((sortByKey_perm _).mem_iff.mp hd)
  match members with
  | [] => exact h.report_other (habout _)
  | [d] => exact h
  | d::d'::rest => exact h.report_other (habout _)

theorem resolveCollisions_alike (hi : input.Isolated g) :
    Alike input g [] (resolveCollisions ⟨input,[],[]⟩).1
      (resolveCollisions ⟨input.restrict g,[],[]⟩).1 := by
  unfold resolveCollisions
  simp only
  rw [byTarget_restrict hi,ExtTreeMap.toList_filter]
  refine Lists.foldl_filter_rel (R := fun acc acc' : Builder × Accepted =>
    Alike input g [] acc.1 acc'.1) ?_ ?_ ⟨⟨.nil,rfl⟩,rfl,rfl,List.prefix_rfl⟩
  · rintro ⟨t,members⟩ hm ht acc acc' h
    have hmem := hm
    rw [ExtTreeMap.mem_toList_iff_getElem?_eq_some,byTarget_get,Maps.nonempty_eq_some] at hmem
    rw [mem_byTarget hm]
    exact resolveTarget_own hi (of_decide_eq_true ht) hmem.1 h
  · rintro ⟨t,members⟩ hm ht acc acc' h
    rw [mem_byTarget hm]
    exact resolveTarget_other (of_decide_eq_false ht) h

end

/-! ### Departures -/

/-- The two runs hold the same removals for the group's records, and the same freed targets
for its targets. -/
structure DeparturesAlike (input : PlanInput) (g : GroupId) (steps : List (Action × List ℕ))
    (departures departures' : Departures) : Prop where
  removal : Maps.Alike (fun k : RecordKey => k.group = g) (Option.Rel (SameStep g steps))
    departures.oldRecordRemoval departures'.oldRecordRemoval
  freed : Maps.Alike (· ∈ input.targetsOf g)
    (fun x y => SameStep g steps x.1 y.1 ∧ x.2 = y.2) departures.freedTargets
    departures'.freedTargets

section
variable {old steps steps' : List (Action × List ℕ)} {departures departures' : Departures}

theorem DeparturesAlike.extend (h : DeparturesAlike input g steps departures departures')
    (hp : steps <+: steps') : DeparturesAlike input g steps' departures departures' where
  removal := h.removal.mono fun _ _ hr => Maps.rel_imp (fun _ _ hat => hat.extend hp) hr
  freed := h.freed.mono fun _ _ hr => ⟨hr.1.extend hp,hr.2⟩

theorem unmountReason_restrict (hi : input.Isolated g) {r : MountRecord} (hr : r.group = g) :
    unmountReason (input.restrict g) (accepted (input.restrict g)) r =
      unmountReason input (accepted input) r := by
  have hany : (input.restrict g).desired.any (fun d => d.key = r.key && d.key.group ∉
      (input.restrict g).frozenGroups) =
        input.desired.any fun d => d.key = r.key && d.key.group ∉ input.frozenGroups := by
    rw [Bool.eq_iff_iff]
    simp only [List.any_eq_true,Bool.and_eq_true,decide_eq_true_eq]
    constructor
    · rintro ⟨d,hd,hk,hf⟩
      obtain ⟨hmem,rfl⟩ := PlanInput.mem_desiredOf.mp hd
      rw [PlanInput.mem_restrict_frozen] at hf
      exact ⟨d,hmem,hk,hf⟩
    · rintro ⟨d,hd,hk,hf⟩
      have hdg : d.key.group = g := by rw [hk]; exact hr
      refine ⟨d,PlanInput.mem_desiredOf.mpr ⟨hd,hdg⟩,hk,?_⟩
      subst hdg
      rwa [PlanInput.mem_restrict_frozen]
  have hkey : r.key.group = g := hr
  unfold unmountReason
  rw [accepted_restrict_get hi hkey]
  simp only [hany]

/-- The builders and departures of the two runs after the same records. -/
def DepartAlike (input : PlanInput) (g : GroupId) (acc acc' : Builder × Departures) : Prop :=
  Alike input g [] acc.1 acc'.1 ∧ DeparturesAlike input g acc.1.steps acc.2 acc'.2

theorem departRecord_own (hi : input.Isolated g) {r : MountRecord}
    (hr : r ∈ input.state.records) (hg : r.group = g) {acc acc' : Builder × Departures}
    (h : DepartAlike input g acc acc') :
    DepartAlike input g (departRecord (accepted input) acc r)
      (departRecord (accepted (input.restrict g)) acc' r) := by
  obtain ⟨b,departures⟩ := acc
  obtain ⟨part,departures'⟩ := acc'
  obtain ⟨hb,hdep⟩ := h
  simp only at hb hdep
  have hl : r.targetLocation ∈ input.targetsOf g := by
    rw [← hg]
    exact PlanInput.mem_targetsOf_of_record hr
  have hpush : ∀ a : Action, a.about g = true →
      Alike input g [] (b.push a []).1 (part.push a []).1 ∧
        SameStep g (b.push a []).1.steps b.steps.length part.steps.length :=
    fun a ha => hb.push ha .nil
  have hgrow : ∀ a : Action, DeparturesAlike input g (b.push a []).1.steps departures departures' :=
    fun a => hdep.extend (List.prefix_append _ _)
  have hkey : r.key.group = g := hg
  have hfrozen : r.group ∈ (input.restrict g).frozenGroups ↔ r.group ∈ input.frozenGroups := by
    rw [hg]
    exact PlanInput.mem_restrict_frozen
  unfold departRecord
  simp only [hb.input_eq,hb.part_eq,hfrozen,accepted_restrict_get hi hkey,
    PlanInput.restrict_target hl,unmountReason_restrict hi hg]
  split_ifs with hf hm
  · exact ⟨hb,hdep⟩
  · exact ⟨hb,hdep⟩
  · cases ht : input.target r.targetLocation with
    | notMounted =>
      have ha : (Action.dropRecord r .mountGone).about g = true := by simp [Action.about,Action.key,hg]
      obtain ⟨hb',hat⟩ := hpush _ ha
      exact ⟨hb',(hgrow _).removal.insert (.some hat) r.key,(hgrow _).freed⟩
    | mounted identity attrs =>
      by_cases hm : identity.matches r.identity = true
      · simp only [hm,if_true]
        have ha : (Action.unmount r (unmountReason input (accepted input) r)).about g = true := by
          simp [Action.about,Action.key,hg]
        obtain ⟨hb',hat⟩ := hpush _ ha
        exact ⟨hb',(hgrow _).removal.insert (.some hat) r.key,
          (hgrow _).freed.insert (x := (_,identity)) (y := (_,identity)) ⟨hat,rfl⟩ r.targetLocation⟩
      · simp only [hm]
        have ha : (Action.dropRecord r .foreignMountAtTarget).about g = true := by
          simp [Action.about,Action.key,hg]
        obtain ⟨hb',hat⟩ := hpush _ ha
        exact ⟨hb',(hgrow _).removal.insert (.some hat) r.key,(hgrow _).freed⟩
    | unavailable reason =>
      have hf : (Finding.targetUnavailable r.key r.targetLocation reason).about g = true := by
        simp [Finding.about,hg]
      exact ⟨hb.report hf,hdep.removal.insert .none r.key,hdep.freed⟩

theorem departRecord_other (hi : input.Isolated g) {r : MountRecord}
    (hr : r ∈ input.state.records) (hg : r.group ≠ g) {acc acc' : Builder × Departures}
    (h : DepartAlike input g acc acc') :
    DepartAlike input g (departRecord (accepted input) acc r) acc' := by
  obtain ⟨b,departures⟩ := acc
  obtain ⟨hb,hdep⟩ := h
  simp only at hb hdep
  have hgrow : ∀ a : Action, a.about g = false → Alike input g [] (b.push a []).1 acc'.1 ∧
      DeparturesAlike input g (b.push a []).1.steps departures acc'.2 :=
    fun a ha => ⟨hb.push_other ha,hdep.extend (List.prefix_append _ _)⟩
  have hkey : ¬r.key.group = g := hg
  unfold departRecord
  simp only [hb.input_eq]
  split_ifs with hf hm
  · exact ⟨hb,hdep⟩
  · exact ⟨hb,hdep⟩
  · have hl : r.targetLocation ∉ input.targetsOf g :=
      fun hl => hi r.group hg hf (PlanInput.mem_targetsOf_of_record hr) hl
    cases ht : input.target r.targetLocation with
    | notMounted =>
      have ha : (Action.dropRecord r .mountGone).about g = false := by
        simp [Action.about,Action.key,hg]
      obtain ⟨hb',hdep'⟩ := hgrow _ ha
      exact ⟨hb',hdep'.removal.insert_other hkey _,hdep'.freed⟩
    | mounted identity attrs =>
      by_cases hm : identity.matches r.identity = true
      · simp only [hm,if_true]
        have ha : (Action.unmount r (unmountReason input (accepted input) r)).about g = false := by
          simp [Action.about,Action.key,hg]
        obtain ⟨hb',hdep'⟩ := hgrow _ ha
        exact ⟨hb',hdep'.removal.insert_other hkey _,hdep'.freed.insert_other hl _⟩
      · simp only [hm]
        have ha : (Action.dropRecord r .foreignMountAtTarget).about g = false := by
          simp [Action.about,Action.key,hg]
        obtain ⟨hb',hdep'⟩ := hgrow _ ha
        exact ⟨hb',hdep'.removal.insert_other hkey _,hdep'.freed⟩
    | unavailable reason =>
      have hf : (Finding.targetUnavailable r.key r.targetLocation reason).about g = false := by
        simp [Finding.about,hg]
      exact ⟨hb.report_other hf,hdep.removal.insert_other hkey _,hdep.freed⟩

theorem planDepartingRecords_alike (hi : input.Isolated g) :
    DepartAlike input g
      (planDepartingRecords (resolveCollisions ⟨input,[],[]⟩).1 (accepted input))
      (planDepartingRecords (resolveCollisions ⟨input.restrict g,[],[]⟩).1
        (accepted (input.restrict g))) := by
  have hb := resolveCollisions_alike hi
  unfold planDepartingRecords
  rw [hb.input_eq,hb.part_eq]
  show DepartAlike input g _ ((input.state.restrict g).records.foldl _ _)
  rw [State.records_restrict]
  refine Lists.foldl_filter_rel (R := DepartAlike input g) ?_ ?_ ⟨hb,.empty,.empty⟩
  · intro r hr hg acc acc' h
    exact departRecord_own hi hr (of_decide_eq_true hg) h
  · intro r hr hg acc acc' h
    exact departRecord_other hi hr (of_decide_eq_false hg) h

end

/-! ### Members -/

section
variable {old : List (Action × List ℕ)} {departures departures' : Departures} {b part : Builder}
  {d : DesiredMount} {ids ids' : List ℕ}

theorem about_mount (hd : d.key.group = g) : (Action.mount d).about g = true := by
  simp [Action.about,Action.key,hd]

theorem mountIfResolved_own (h : Alike input g old b part) (hd : d.key.group = g)
    (hids : List.Forall₂ (SameStep g old) ids ids') (source : SourceState) :
    Alike input g old (mountIfResolved b d ids source) (mountIfResolved part d ids' source) := by
  cases source with
  | resolved root => exact (h.push (about_mount hd) hids).1
  | unavailable reason => exact h.report (by simp [Finding.about,hd])

theorem mountIfResolved_other (h : Alike input g old b part) (hd : d.key.group ≠ g)
    (source : SourceState) : Alike input g old (mountIfResolved b d ids source) part := by
  cases source with
  | resolved root => exact h.push_other (by simp [Action.about,Action.key,hd])
  | unavailable reason => exact h.report_other (by simp [Finding.about,hd])

theorem placeMember_own (h : Alike input g old b part) (hd : d ∈ input.desiredOf g)
    (hdep : DeparturesAlike input g old departures departures')
    (hids : List.Forall₂ (SameStep g old) ids ids') (target : TargetState) (source : SourceState) :
    Alike input g old (placeMember b d departures ids target source)
      (placeMember part d departures' ids' target source) := by
  obtain ⟨hmem,hg⟩ := PlanInput.mem_desiredOf.mp hd
  have hl : d.target ∈ input.targetsOf g := by
    rw [← hg]
    exact PlanInput.mem_targetsOf_of_desired hmem
  cases target with
  | notMounted => exact mountIfResolved_own h hg hids source
  | unavailable reason => exact h.report (by simp [Finding.about,hg])
  | mounted identity attrs =>
    have hconflict : Alike input g old (b.report (.conflict d.key d.target .foreignMount))
        (part.report (.conflict d.key d.target .foreignMount)) :=
      h.report (by simp [Finding.about,hg])
    have hfreed := hdep.freed d.target hl
    simp only [placeMember]
    generalize departures.freedTargets[d.target]? = o at hfreed ⊢
    generalize departures'.freedTargets[d.target]? = o' at hfreed ⊢
    cases hfreed with
    | none => exact hconflict
    | @some x y hxy =>
      by_cases hid : x.2 = identity
      · have hid' : y.2 = identity := by rw [← hxy.2,hid]
        simp only [Option.filter_some,hid,hid',decide_true,if_true]
        exact mountIfResolved_own h hg (List.rel_append hids (.cons hxy.1 .nil)) source
      · have hid' : ¬y.2 = identity := by rwa [← hxy.2]
        simpa only [Option.filter_some,hid,hid',decide_false,Bool.false_eq_true,if_false]
          using hconflict

theorem placeMember_other (h : Alike input g old b part) (hd : d.key.group ≠ g)
    (target : TargetState) (source : SourceState) :
    Alike input g old (placeMember b d departures ids target source) part := by
  cases target with
  | notMounted => exact mountIfResolved_other h hd source
  | unavailable reason => exact h.report_other (by simp [Finding.about,hd])
  | mounted identity attrs =>
    simp only [placeMember]
    cases departures.freedTargets[d.target]?.filter (fun freed => freed.2 = identity) with
    | none => exact h.report_other (by simp [Finding.about,hd])
    | some freed => exact mountIfResolved_other h hd source

theorem planUnrecordedMember_own (h : Alike input g old b part) (hd : d ∈ input.desiredOf g)
    (hdep : DeparturesAlike input g old departures departures') (target : TargetState)
    (source : SourceState) : Alike input g old (planUnrecordedMember b d departures target source)
      (planUnrecordedMember part d departures' target source) := by
  have hg := (PlanInput.mem_desiredOf.mp hd).2
  have hrem := hdep.removal d.key hg
  have hget : part.input.state.get d.key = b.input.state.get d.key := by
    rw [h.part_eq,h.input_eq,PlanInput.restrict_get hg]
  unfold planUnrecordedMember
  rw [hget]
  generalize departures.oldRecordRemoval[d.key]? = o at hrem ⊢
  generalize departures'.oldRecordRemoval[d.key]? = o' at hrem ⊢
  cases hrem with
  | none => exact placeMember_own h hd hdep .nil target source
  | some hid =>
    cases hid with
    | none => exact h.report (by simp [Finding.about,hg])
    | some hat => exact placeMember_own h hd hdep (.cons hat .nil) target source

theorem planUnrecordedMember_other (h : Alike input g old b part) (hd : d.key.group ≠ g)
    (target : TargetState) (source : SourceState) :
    Alike input g old (planUnrecordedMember b d departures target source) part := by
  unfold planUnrecordedMember
  cases departures.oldRecordRemoval[d.key]? with
  | none => exact placeMember_other h hd target source
  | some o =>
    cases o with
    | none => exact h.report_other (by simp [Finding.about,hd])
    | some id => exact placeMember_other h hd target source

theorem remount_own (h : Alike input g old b part) (hd : d.key.group = g) {record : MountRecord}
    (hr : record.group = g) (reason : UnmountReason) :
    Alike input g old (remount b d record reason) (remount part d record reason) := by
  have ha : (Action.unmount record reason).about g = true := by simp [Action.about,Action.key,hr]
  obtain ⟨h₁,hat⟩ := h.push ha .nil
  have h₂ := (h₁.settle.push (about_mount hd) (.cons hat .nil)).1
  exact ⟨h₂.builders,h₂.input_eq,h₂.part_eq,h₁.old.trans h₂.old⟩

theorem remount_other (h : Alike input g old b part) (hd : d.key.group ≠ g) {record : MountRecord}
    (hr : record.group ≠ g) (reason : UnmountReason) :
    Alike input g old (remount b d record reason) part := by
  have ha : (Action.unmount record reason).about g = false := by simp [Action.about,Action.key,hr]
  exact (h.push_other ha).push_other (by simp [Action.about,Action.key,hd])

theorem planRecordedMember_own (h : Alike input g old b part) (hd : d.key.group = g)
    {record : MountRecord} (hr : record.group = g) (target : TargetState) (source : SourceState) :
    Alike input g old (planRecordedMember b d record target source)
      (planRecordedMember part d record target source) := by
  have hunmount : ∀ reason, (Action.unmount record reason).about g = true := by
    simp [Action.about,Action.key,hr]
  have hdrop : ∀ reason, (Action.dropRecord record reason).about g = true := by
    simp [Action.about,Action.key,hr]
  unfold planRecordedMember
  cases target with
  | notMounted =>
    cases source with
    | resolved root => exact (h.push (about_mount hd) .nil).1
    | unavailable reason => exact (h.push (hdrop _) .nil).1.report (by simp [Finding.about,hd])
  | unavailable reason => exact h.report (by simp [Finding.about,hd])
  | mounted identity attrs =>
    simp only
    split_ifs with hi
    · cases source with
      | resolved root =>
        simp only
        split_ifs with hroot
        · cases attributeReason d record attrs with
          | none => exact h
          | some reason => exact remount_own h hd hr reason
        · exact remount_own h hd hr _
      | unavailable reason => exact (h.push (hunmount _) .nil).1
    · exact h.report (by simp [Finding.about,hd])

theorem planRecordedMember_other (h : Alike input g old b part) (hd : d.key.group ≠ g)
    {record : MountRecord} (hr : record.group ≠ g) (target : TargetState) (source : SourceState) :
    Alike input g old (planRecordedMember b d record target source) part := by
  have hmount : (Action.mount d).about g = false := by simp [Action.about,Action.key,hd]
  have hunmount : ∀ reason, (Action.unmount record reason).about g = false := by
    simp [Action.about,Action.key,hr]
  have hdrop : ∀ reason, (Action.dropRecord record reason).about g = false := by
    simp [Action.about,Action.key,hr]
  unfold planRecordedMember
  cases target with
  | notMounted =>
    cases source with
    | resolved root => exact h.push_other hmount
    | unavailable reason => exact (h.push_other (hdrop _)).report_other (by simp [Finding.about,hd])
  | unavailable reason => exact h.report_other (by simp [Finding.about,hd])
  | mounted identity attrs =>
    simp only
    split_ifs with hi
    · cases source with
      | resolved root =>
        simp only
        split_ifs with hroot
        · cases attributeReason d record attrs with
          | none => exact h
          | some reason => exact remount_other h hd hr reason
        · exact remount_other h hd hr _
      | unavailable reason => exact h.push_other (hunmount _)
    · exact h.report_other (by simp [Finding.about,hd])

theorem planMember_own (h : Alike input g old b part) (hd : d ∈ input.desiredOf g)
    (hdep : DeparturesAlike input g old departures departures') :
    Alike input g old (planMember departures b (d.key,d)) (planMember departures' part (d.key,d)) := by
  obtain ⟨hmem,hg⟩ := PlanInput.mem_desiredOf.mp hd
  have hl : d.target ∈ input.targetsOf g := by
    rw [← hg]
    exact PlanInput.mem_targetsOf_of_desired hmem
  unfold planMember
  simp only [h.input_eq,h.part_eq,PlanInput.restrict_target hl,PlanInput.restrict_source hd,
    PlanInput.restrict_get hg]
  cases hr : (input.state.get d.key).filter fun r => recordMatchesDesired r d with
  | none => exact planUnrecordedMember_own h hd hdep _ _
  | some record =>
    have hk := State.key_of_get (Option.filter_eq_some_iff.mp hr).1
    have hrg : record.group = g := by rw [← hg,← hk]; rfl
    exact planRecordedMember_own h hg hrg _ _

theorem planMember_other (h : Alike input g old b part) (hd : d.key.group ≠ g) :
    Alike input g old (planMember departures b (d.key,d)) part := by
  unfold planMember
  simp only [h.input_eq]
  cases hr : (input.state.get d.key).filter fun r => recordMatchesDesired r d with
  | none => exact planUnrecordedMember_other h hd _ _
  | some record =>
    have hk := State.key_of_get (Option.filter_eq_some_iff.mp hr).1
    have hrg : record.group ≠ g := by
      rw [← hk] at hd
      exact hd
    exact planRecordedMember_other h hd hrg _ _

theorem planMembers_alike (hi : input.Isolated g) (h : Alike input g old b part)
    (hdep : DeparturesAlike input g old departures departures') :
    Alike input g old ((accepted input).toList.foldl (planMember departures) b)
      ((accepted (input.restrict g)).toList.foldl (planMember departures') part) := by
  have hentry : ∀ e ∈ (accepted input).toList, e = (e.2.key,e.2) ∧ e.2 ∈ input.desired := by
    intro e he
    obtain ⟨hk,ha⟩ := mem_accepted.mp he
    exact ⟨by rw [← hk],ha.mem⟩
  rw [accepted_restrict hi,ExtTreeMap.toList_filter]
  refine Lists.foldl_filter_rel (R := Alike input g old) ?_ ?_ h
  · intro e he hg c c' hc
    obtain ⟨hk,hmem⟩ := hentry e he
    rw [hk] at hg ⊢
    exact planMember_own hc (PlanInput.mem_desiredOf.mpr ⟨hmem,of_decide_eq_true hg⟩) hdep
  · intro e he hg c c' hc
    obtain ⟨hk,hmem⟩ := hentry e he
    rw [hk] at hg ⊢
    exact planMember_other hc (of_decide_eq_false hg)

/-- The planner's run on the group's part of the input is the group's part of its run. -/
theorem planBuilder_alike (hi : input.Isolated g) :
    (planBuilder input).Part g (planBuilder (input.restrict g)) := by
  obtain ⟨hb,hdep⟩ := planDepartingRecords_alike hi
  exact (planMembers_alike hi hb.settle hdep).builders

/-- Planning for the group alone gives its part of the plan. -/
theorem plan_restrict (hi : input.Isolated g) :
    (plan input).restrict g = plan (input.restrict g) ∧ (plan input).Confined g :=
  (planBuilder_alike hi).restrict_finish

/-- Where no other group that is not frozen has one of its targets, two inputs with the same
group give it the same steps in the same order, which depend on one another in the same way and
on no others, and the same findings. -/
theorem plan_noninterference {a b : PlanInput} (hab : PlanInput.AgreeOn g a b)
    (ha : a.Isolated g) (hb : b.Isolated g) :
    (plan a).restrict g = (plan b).restrict g ∧ (plan a).Confined g ∧ (plan b).Confined g := by
  obtain ⟨hra,hca⟩ := plan_restrict ha
  obtain ⟨hrb,hcb⟩ := plan_restrict hb
  exact ⟨by rw [hra,hrb,hab.restrict_eq],hca,hcb⟩

end

/-! A member that is relocated, alone and beside another group that is planned before it. -/
namespace SampleGroups

open Sample

def observed : Observations := observations [(⟨group,a⟩,.resolved (dir 10)),
    (⟨frozenGroup,b⟩,.resolved (dir 20))]
  [(view "x",.notMounted),(view "old",.mounted (identity 1 10) none),
    (view "cold/x",.notMounted),(view "cold/old",.mounted (identity 2 20) none)]

def alone : PlanInput where
  desired := [desired group a "x"]
  state := state [record group a "old" 1 10]
  frozenGroups := ∅
  observations := observed

def beside : PlanInput where
  desired := [desired frozenGroup b "cold/x",desired group a "x"]
  state := state [record frozenGroup b "cold/old" 2 20,record group a "old" 1 10]
  frozenGroups := ∅
  observations := observed

theorem agree : PlanInput.AgreeOn group alone beside where
  desired := by decide
  records := by
    intro name
    have hgroup : frozenGroup ≠ group := by decide
    simp [alone,beside,state,record,MountRecord.key,hgroup]
  frozen := Iff.rfl
  source := by decide +kernel
  target := by decide +kernel

theorem plan_noninterference_run :
    (plan alone).restrict group = (plan beside).restrict group ∧ (plan alone).Confined group ∧
      (plan beside).Confined group :=
  plan_noninterference agree (by decide +kernel) (by decide +kernel)

/-- The steps of the other group come between those of the group. -/
example : (plan beside).positions group = [1,3] ∧
    (plan beside).steps.map Step.dependsOn = [[],[],[0],[1]] := by
  decide +kernel

end SampleGroups
end Byssus
