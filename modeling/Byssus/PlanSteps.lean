import Byssus.Plan
import Byssus.Library.Maps

/-! What the planner plans.
The collision map, the removal phase and the member phase are described as
functions of the plan input; the builder's steps are exactly the described ones. -/
namespace Byssus

open Std

/-! ### Collisions -/

/-- The desired members of groups that are not frozen with target `t`. -/
def membersAt (input : PlanInput) (t : Location) : List DesiredMount :=
  input.desired.filter fun d => d.key.group ∉ input.frozenGroups ∧ d.target = t

/-- The member that goes on when `members` share the target `t`. -/
def keptOf (input : PlanInput) (t : Location) : List DesiredMount → Option DesiredMount
  | [d] => some d
  | members => (sortByKey members).find? (isVerified input (input.target t))

def chosen (input : PlanInput) (t : Location) : Option DesiredMount :=
  keptOf input t (membersAt input t)

/-- `d` goes on to be planned: it is kept at its target, and its key is not
kept again at a later target. -/
def Accepts (input : PlanInput) (d : DesiredMount) : Prop :=
  chosen input d.target = some d ∧ ∀ e ∈ input.desired, chosen input e.target = some e →
    e.key = d.key → e = d ∨ compare e.target d.target = .lt

instance (input : PlanInput) (d : DesiredMount) : Decidable (Accepts input d) := by
  unfold Accepts; infer_instance

theorem mem_membersAt {input : PlanInput} {t : Location} {d : DesiredMount} :
    d ∈ membersAt input t ↔ d ∈ input.desired ∧ d.key.group ∉ input.frozenGroups ∧ d.target = t := by
  simp [membersAt]

theorem byTarget_get (input : PlanInput) (t : Location) :
    (byTarget input)[t]? = Maps.nonempty (membersAt input t) := by
  have hf : byTarget input =
      (input.desired.filter fun d => d.key.group ∉ input.frozenGroups).foldl
        (fun m d => m.alter d.target fun ds => some (ds.getD [] ++ [d])) ∅ := by
    rw [List.foldl_filter]
    unfold byTarget
    congr 1
    funext m d
    by_cases h : d.key.group ∈ input.frozenGroups <;> simp [h]
  rw [hf,Maps.getElem?_foldl_group,List.filter_filter]
  congr 1
  apply List.filter_congr
  intro d _
  simp [LawfulEqCmp.compare_eq_iff_eq,and_comm]

theorem sortByKey_perm (members : List DesiredMount) : (sortByKey members).Perm members :=
  List.perm_insertionSort _ _

theorem keptOf_mem {input : PlanInput} {t : Location} {members : List DesiredMount}
    {d : DesiredMount} (h : keptOf input t members = some d) : d ∈ members := by
  unfold keptOf at h
  split at h
  · cases h; simp
  · exact (sortByKey_perm _).mem_iff.mp (List.mem_of_find?_eq_some h)

theorem chosen_mem {input : PlanInput} {t : Location} {d : DesiredMount}
    (h : chosen input t = some d) :
    d ∈ input.desired ∧ d.key.group ∉ input.frozenGroups ∧ d.target = t :=
  mem_membersAt.mp (keptOf_mem h)

@[simp] theorem chosen_nil {input : PlanInput} {t : Location} (h : membersAt input t = []) :
    chosen input t = none := by
  simp [chosen,h,keptOf,sortByKey]

/-- The members kept at the targets, in target order. -/
def chosenList (input : PlanInput) : List DesiredMount :=
  (byTarget input).toList.filterMap fun e => keptOf input e.1 e.2

theorem mem_byTarget {input : PlanInput} {t : Location} {members : List DesiredMount}
    (h : (t,members) ∈ (byTarget input).toList) : members = membersAt input t := by
  rw [ExtTreeMap.mem_toList_iff_getElem?_eq_some,byTarget_get,Maps.nonempty_eq_some] at h
  exact h.2.symm

theorem mem_chosenList {input : PlanInput} {d : DesiredMount} :
    d ∈ chosenList input ↔ chosen input d.target = some d := by
  simp only [chosenList,List.mem_filterMap,Prod.exists]
  constructor
  · rintro ⟨t,members,hm,hk⟩
    rw [mem_byTarget hm] at hk
    have ht : d.target = t := (chosen_mem hk).2.2
    rw [ht]
    exact hk
  · intro h
    refine ⟨d.target,membersAt input d.target,?_,h⟩
    rw [ExtTreeMap.mem_toList_iff_getElem?_eq_some,byTarget_get,Maps.nonempty_eq_some]
    refine ⟨?_,rfl⟩
    intro h0
    rw [chosen_nil h0] at h
    cases h

theorem chosenList_ordered (input : PlanInput) :
    (chosenList input).Pairwise fun d e => compare d.target e.target = .lt := by
  have ho := (byTarget input).ordered_keys_toList
  unfold chosenList
  rw [List.pairwise_filterMap]
  refine ho.imp_of_mem ?_
  rintro ⟨t,ms⟩ ⟨t',ms'⟩ h h' hlt d hd d' hd'
  rw [mem_byTarget h] at hd
  rw [mem_byTarget h'] at hd'
  rw [(chosen_mem hd).2.2,(chosen_mem hd').2.2]
  exact hlt

/-- The finding about members that share the target `t`. -/
def collisionFinding (input : PlanInput) (t : Location) : List DesiredMount → Option Finding
  | [_] => none
  | members => some (.targetCollision t ((sortByKey members).map DesiredMount.key)
      ((keptOf input t members).map DesiredMount.key))

theorem resolveTarget_spec (acc : Builder × Accepted) (e : Location × List DesiredMount) :
    (resolveTarget acc e).1.input = acc.1.input ∧ (resolveTarget acc e).1.steps = acc.1.steps ∧
      (resolveTarget acc e).1.findings =
        acc.1.findings ++ (collisionFinding acc.1.input e.1 e.2).toList ∧
      (resolveTarget acc e).2 =
        (keptOf acc.1.input e.1 e.2).elim acc.2 fun d => acc.2.insert d.key d := by
  obtain ⟨t,ms⟩ := e
  obtain ⟨b,accepted⟩ := acc
  match ms with
  | [] => simp [resolveTarget,collisionFinding,keptOf,sortByKey,Builder.report]
  | [d] => simp [resolveTarget,collisionFinding,keptOf]
  | d::d'::ms =>
    simp only [resolveTarget,collisionFinding,keptOf,Builder.report]
    cases (sortByKey (d::d'::ms)).find? (isVerified b.input (b.input.target t)) <;> simp

/-- The members the planner goes on with, by key. -/
def accepted (input : PlanInput) : Accepted := (resolveCollisions ⟨input,[],[]⟩).2

/-- The loop invariant of `resolve_collisions` after the targets `done`. -/
structure Collected (b : Builder) (done : List (Location × List DesiredMount))
    (acc : Builder × Accepted) : Prop where
  input_eq : acc.1.input = b.input
  steps_eq : acc.1.steps = b.steps
  findings_eq : acc.1.findings =
    b.findings ++ done.filterMap fun e => collisionFinding b.input e.1 e.2
  accepted_eq : acc.2 = (done.filterMap fun e => keptOf b.input e.1 e.2).foldl
    (fun m d => m.insert d.key d) ∅

theorem resolveCollisions_collected (b : Builder) :
    Collected b (byTarget b.input).toList (resolveCollisions b) := by
  unfold resolveCollisions
  refine Lists.foldl_induction (P := Collected b) ⟨rfl,rfl,by simp,rfl⟩ ?_ (byTarget b.input).toList
  intro done e acc ih
  obtain ⟨h₁,h₂,h₃,h₄⟩ := resolveTarget_spec acc e
  refine ⟨h₁.trans ih.input_eq,h₂.trans ih.steps_eq,?_,?_⟩
  · rw [h₃,ih.input_eq,ih.findings_eq,List.filterMap_append]
    cases h : collisionFinding b.input e.1 e.2 <;> simp [h]
  · rw [h₄,ih.input_eq,ih.accepted_eq,List.filterMap_append]
    cases h : keptOf b.input e.1 e.2 <;> simp [h]

theorem accepted_get (input : PlanInput) (k : RecordKey) (d : DesiredMount) :
    (accepted input)[k]? = some d ↔ d.key = k ∧ Accepts input d := by
  have ha : (accepted input)[k]? =
      ((chosenList input).filter fun d => compare d.key k = .eq).getLast? := by
    unfold accepted
    rw [(resolveCollisions_collected _).accepted_eq,← chosenList,Maps.getElem?_foldl_insert]
  have hasymm : ∀ d e : DesiredMount,
      compare d.target e.target = .lt → ¬compare e.target d.target = .lt :=
    fun _ _ => OrientedCmp.not_lt_of_lt
  rw [ha,Lists.getLast?_eq_some_iff ((chosenList_ordered input).filter _) hasymm]
  simp only [List.mem_filter,mem_chosenList,LawfulEqCmp.compare_eq_iff_eq,decide_eq_true_eq,
    Accepts]
  constructor
  · rintro ⟨⟨hc,hk⟩,hl⟩
    exact ⟨hk,hc,fun e _ he hek => hl e ⟨he,hek.trans hk⟩⟩
  · rintro ⟨hk,hc,hl⟩
    exact ⟨⟨hc,hk⟩,fun e he => hl e (chosen_mem he.1).1 he.1 (he.2.trans hk.symm)⟩

theorem Accepts.mem {input : PlanInput} {d : DesiredMount} (h : Accepts input d) :
    d ∈ input.desired := (chosen_mem h.1).1

theorem Accepts.notFrozen {input : PlanInput} {d : DesiredMount} (h : Accepts input d) :
    d.key.group ∉ input.frozenGroups := (chosen_mem h.1).2.1

theorem mem_accepted {input : PlanInput} {e : RecordKey × DesiredMount} :
    e ∈ (accepted input).toList ↔ e.1 = e.2.key ∧ Accepts input e.2 := by
  obtain ⟨k,d⟩ := e
  rw [ExtTreeMap.mem_toList_iff_getElem?_eq_some,accepted_get]
  simp only [eq_comm]

/-! ### Removals -/

/-- The record has to go, or to wait: it is not frozen and its member is not
desired where the record says. -/
def departs (input : PlanInput) (r : MountRecord) : Bool :=
  r.group ∉ input.frozenGroups && !(accepted input)[r.key]?.any (recordMatchesDesired r)

theorem departs_iff {input : PlanInput} {r : MountRecord} :
    departs input r = true ↔ r.group ∉ input.frozenGroups ∧
      ∀ d, Accepts input d → d.key = r.key → recordMatchesDesired r d = false := by
  have hget : ∀ d, (accepted input)[r.key]? = some d ↔ d.key = r.key ∧ Accepts input d :=
    accepted_get input r.key
  cases h : (accepted input)[r.key]? with
  | none =>
    have hn : ∀ d, Accepts input d → d.key ≠ r.key := by
      intro d hd hk
      have hs := (hget d).mpr ⟨hk,hd⟩
      rw [h] at hs
      cases hs
    simp only [departs,h,Option.any_none,Bool.not_false,Bool.and_true,decide_eq_true_eq]
    exact ⟨fun hf => ⟨hf,fun d hd hk => absurd hk (hn d hd)⟩,And.left⟩
  | some e =>
    have he := (hget e).mp h
    simp only [departs,h,Option.any_some,Bool.and_eq_true,decide_eq_true_eq,Bool.not_eq_true']
    constructor
    · rintro ⟨hf,hm⟩
      refine ⟨hf,fun d hd hk => ?_⟩
      have hs := (hget d).mpr ⟨hk,hd⟩
      rw [h] at hs
      cases hs
      exact hm
    · rintro ⟨hf,hm⟩
      exact ⟨hf,hm e he.2 he.1⟩

/-- The step that removes a departing record, unless its target cannot be inspected. -/
def departAction (input : PlanInput) (r : MountRecord) : Option Action :=
  if departs input r then
    match input.target r.targetLocation with
    | .notMounted => some (.dropRecord r .mountGone)
    | .mounted identity _ =>
      if identity.matches r.identity then
        some (.unmount r (unmountReason input (accepted input) r))
      else some (.dropRecord r .foreignMountAtTarget)
    | .unavailable _ => none
  else none

/-- The finding about a departing record whose target cannot be inspected. -/
def departFinding (input : PlanInput) (r : MountRecord) : Option Finding :=
  if departs input r then
    match input.target r.targetLocation with
    | .unavailable reason => some (.targetUnavailable r.key r.targetLocation reason)
    | _ => none
  else none

/-- A departing record whose mount is seen at its target, which is freed. -/
def frees (input : PlanInput) (r : MountRecord) : Bool :=
  departs input r && (input.target r.targetLocation).shows r

/-- The action takes the record out of the state. -/
def Action.Removes (a : Action) (r : MountRecord) : Prop :=
  (∃ reason, a = .unmount r reason) ∨ ∃ reason, a = .dropRecord r reason

theorem Action.Removes.phase_eq {a : Action} {r : MountRecord} (h : a.Removes r) : a.phase = 0 := by
  rcases h with ⟨_,rfl⟩ | ⟨_,rfl⟩ <;> rfl

theorem departAction_removes {input : PlanInput} {r : MountRecord} {a : Action}
    (h : departAction input r = some a) : a.Removes r := by
  unfold departAction at h
  split_ifs at h
  split at h
  · cases h; exact .inr ⟨_,rfl⟩
  · split_ifs at h
    · cases h; exact .inl ⟨_,rfl⟩
    · cases h; exact .inr ⟨_,rfl⟩
  · cases h

theorem departAction_departs {input : PlanInput} {r : MountRecord} {a : Action}
    (h : departAction input r = some a) : departs input r = true := by
  by_contra hd
  simp [departAction,hd] at h

/-- What `old_record_removal` holds for a departing record. -/
def RemovalOf (input : PlanInput) (steps : List (Action × List ℕ)) (r : MountRecord) :
    Option ℕ → Prop
  | none => departAction input r = none
  | some id => ∃ a, departAction input r = some a ∧ steps[id]? = some (a,[])

/-- What `freed_targets` holds for a record whose target is freed. -/
def FreedBy (input : PlanInput) (steps : List (Action × List ℕ)) (r : MountRecord)
    (freed : ℕ × MountIdentity) : Prop :=
  (∃ reason, steps[freed.1]? = some (.unmount r reason,[])) ∧
    ∃ attrs, input.target r.targetLocation = .mounted freed.2 attrs

/-- What the departures of the records `done` tell about the steps planned so far. -/
structure DeparturesOk (input : PlanInput) (steps : List (Action × List ℕ))
    (done : List MountRecord) (departures : Departures) : Prop where
  removal : Maps.Tracks (RemovalOf input steps) (departs input) MountRecord.key done
    departures.oldRecordRemoval
  freed : Maps.Tracks (FreedBy input steps) (frees input) MountRecord.targetLocation done
    departures.freedTargets

/-- The loop invariant of `plan_departing_records` after the records `done`. -/
structure Departed (input : PlanInput) (done : List MountRecord) (acc : Builder × Departures) :
    Prop where
  input_eq : acc.1.input = input
  steps_eq : acc.1.steps = (done.filterMap (departAction input)).map fun a => (a,[])
  departures : DeparturesOk input acc.1.steps done acc.2

/-- A departing record is reported iff its target cannot be inspected. -/
theorem departRecord_findings (acc : Builder × Departures) (r : MountRecord) :
    (departRecord (accepted acc.1.input) acc r).1.input = acc.1.input ∧
      (departRecord (accepted acc.1.input) acc r).1.findings =
        acc.1.findings ++ (departFinding acc.1.input r).toList := by
  obtain ⟨b,departures⟩ := acc
  by_cases hf : r.group ∈ b.input.frozenGroups
  · simp [departRecord,departFinding,departs,hf]
  · cases hm : (accepted b.input)[r.key]?.any (recordMatchesDesired r) with
    | true => simp [departRecord,departFinding,departs,hf,hm]
    | false =>
      simp only [departRecord,departFinding,departs,hf,hm,if_false,Bool.false_eq_true]
      cases ht : b.input.target r.targetLocation with
      | notMounted => simp [Builder.push]
      | mounted identity attrs =>
        by_cases hi : identity.matches r.identity = true <;> simp [Builder.push,hi]
      | unavailable reason => simp [Builder.report]

theorem getElem?_append_some {α : Type*} {xs ys : List α} {i : ℕ} {a : α} (h : xs[i]? = some a) :
    (xs++ys)[i]? = some a := by
  rw [List.getElem?_append_left (List.getElem?_eq_some_iff.mp h).1,h]

theorem DeparturesOk.append {input : PlanInput} {steps : List (Action × List ℕ)}
    {done : List MountRecord} {departures : Departures}
    (h : DeparturesOk input steps done departures) (new : List (Action × List ℕ)) :
    DeparturesOk input (steps++new) done departures where
  removal := h.removal.mono fun r o hr => by
    cases o with
    | none => exact hr
    | some id =>
      obtain ⟨a,ha,hs⟩ := hr
      exact ⟨a,ha,getElem?_append_some hs⟩
  freed := h.freed.mono fun r freed hr => by
    obtain ⟨⟨reason,hs⟩,ha⟩ := hr
    exact ⟨⟨reason,getElem?_append_some hs⟩,ha⟩

theorem departRecord_departed {input : PlanInput} {done : List MountRecord}
    {acc : Builder × Departures} (h : Departed input done acc) (r : MountRecord) :
    Departed input (done++[r]) (departRecord (accepted input) acc r) := by
  obtain ⟨b,deps⟩ := acc
  obtain ⟨rfl,hs,hdep⟩ := h
  simp only at hs hdep
  have hpre : ∀ x, DeparturesOk b.input (b.steps++[x]) done deps := fun x => hdep.append [x]
  have hlen : ∀ x : Action × List ℕ, (b.steps++[x])[b.steps.length]? = some x := by simp
  have hskip : departAction b.input r = none →
      b.steps = ((done++[r]).filterMap (departAction b.input)).map fun a => (a,[]) := by
    intro hn
    simp [hs,hn]
  have hpush : ∀ a, departAction b.input r = some a → b.steps++[(a,[])] =
      ((done++[r]).filterMap (departAction b.input)).map fun a => (a,[]) := by
    intro a ha
    simp [hs,ha]
  by_cases hd : departs b.input r = true
  · have hf : r.group ∉ b.input.frozenGroups := (departs_iff.mp hd).1
    have hm : (accepted b.input)[r.key]?.any (recordMatchesDesired r) = false := by
      simpa [departs,hf] using hd
    cases ht : b.input.target r.targetLocation with
    | notMounted =>
      have ha : departAction b.input r = some (.dropRecord r .mountGone) := by
        simp [departAction,hd,ht]
      have hfr : frees b.input r = false := by simp [frees,ht,TargetState.shows]
      simp only [departRecord,hf,hm,ht,Builder.push,if_false,Bool.false_eq_true]
      exact ⟨rfl,hpush _ ha,(hpre _).removal.insert hd ⟨_,ha,hlen _⟩,(hpre _).freed.skip hfr⟩
    | mounted identity attrs =>
      by_cases hi : identity.matches r.identity = true
      · have ha : departAction b.input r =
            some (.unmount r (unmountReason b.input (accepted b.input) r)) := by
          simp [departAction,hd,ht,hi]
        have hfr : frees b.input r = true := by simp [frees,ht,TargetState.shows,hi,hd]
        simp only [departRecord,hf,hm,ht,hi,Builder.push,if_false,if_true,Bool.false_eq_true]
        exact ⟨rfl,hpush _ ha,(hpre _).removal.insert hd ⟨_,ha,hlen _⟩,
          (hpre _).freed.insert hfr ⟨⟨_,hlen _⟩,_,ht⟩⟩
      · have ha : departAction b.input r = some (.dropRecord r .foreignMountAtTarget) := by
          simp [departAction,hd,ht,hi]
        have hfr : frees b.input r = false := by simp [frees,ht,TargetState.shows,hi]
        simp only [departRecord,hf,hm,ht,hi,Builder.push,if_false,Bool.false_eq_true]
        exact ⟨rfl,hpush _ ha,(hpre _).removal.insert hd ⟨_,ha,hlen _⟩,(hpre _).freed.skip hfr⟩
    | unavailable reason =>
      have ha : departAction b.input r = none := by simp [departAction,hd,ht]
      have hfr : frees b.input r = false := by simp [frees,ht,TargetState.shows]
      simp only [departRecord,hf,hm,ht,Builder.report,if_false,Bool.false_eq_true]
      exact ⟨rfl,hskip ha,hdep.removal.insert hd ha,hdep.freed.skip hfr⟩
  · have ha : departAction b.input r = none := by simp [departAction,hd]
    have hfr : frees b.input r = false := by simp [frees,hd]
    have hdf : departs b.input r = false := by simpa using hd
    have hsame : departRecord (accepted b.input) (b,deps) r = (b,deps) := by
      by_cases hf : r.group ∈ b.input.frozenGroups
      · simp [departRecord,hf]
      · have hm : (accepted b.input)[r.key]?.any (recordMatchesDesired r) = true := by
          simpa [departs,hf] using hdf
        simp [departRecord,hf,hm]
    rw [hsame]
    exact ⟨rfl,hskip ha,hdep.removal.skip hdf,hdep.freed.skip hfr⟩

theorem planDepartingRecords_departed {b : Builder} (hb : b.steps = []) :
    Departed b.input b.input.state.records (planDepartingRecords b (accepted b.input)) := by
  unfold planDepartingRecords
  refine Lists.foldl_induction (P := Departed b.input) ⟨rfl,by simp [hb],.empty,.empty⟩ ?_
    b.input.state.records
  intro done r acc h
  exact departRecord_departed h r

theorem planDepartingRecords_findings (b : Builder) :
    (planDepartingRecords b (accepted b.input)).1.findings =
      b.findings ++ b.input.state.records.filterMap (departFinding b.input) := by
  suffices h : (planDepartingRecords b (accepted b.input)).1.input = b.input ∧
      (planDepartingRecords b (accepted b.input)).1.findings =
        b.findings ++ b.input.state.records.filterMap (departFinding b.input) from h.2
  unfold planDepartingRecords
  refine Lists.foldl_induction (P := fun done (acc : Builder × Departures) =>
    acc.1.input = b.input ∧ acc.1.findings = b.findings ++ done.filterMap (departFinding b.input))
    ⟨rfl,by simp⟩ ?_ b.input.state.records
  rintro done r acc ⟨hi,hf⟩
  have hstep := departRecord_findings acc r
  rw [hi,hf] at hstep
  refine ⟨hstep.1,?_⟩
  rw [hstep.2,List.filterMap_append]
  cases h : departFinding b.input r <;> simp [h]

/-! ### Members -/

/-- The actions for a member recorded at its desired location. -/
def recordedActions (input : PlanInput) (d : DesiredMount) (record : MountRecord) : List Action :=
  match input.target d.target with
  | .mounted identity attrs =>
    if identity.matches record.identity then
      match input.source d.key with
      | .resolved root =>
        if root = record.identity.root then
          match attributeReason d record attrs with
          | some reason => [.unmount record reason,.mount d]
          | none => []
        else [.unmount record .sourceChanged,.mount d]
      | .unavailable reason => [.unmount record (.sourceGone reason)]
    else []
  | .notMounted =>
    match input.source d.key with
    | .resolved _ => [.mount d]
    | .unavailable reason => [.dropRecord record (.sourceUnavailable reason)]
  | .unavailable _ => []

/-- The old record of the member has to stay, since its target cannot be inspected. -/
def blocked (input : PlanInput) (k : RecordKey) : Bool :=
  (input.state.get k).any fun r => departs input r && (departAction input r).isNone

/-- Nothing is mounted at the target, or a departing record's mount that is removed first. -/
def vacated (input : PlanInput) (t : Location) : Bool :=
  match input.target t with
  | .notMounted => true
  | .mounted _ _ => input.state.records.any fun r => frees input r && r.targetLocation = t
  | .unavailable _ => false

/-- The actions for a member without a record at its desired location. -/
def unrecordedActions (input : PlanInput) (d : DesiredMount) : List Action :=
  if !blocked input d.key && vacated input d.target && (input.source d.key matches .resolved _) then
    [.mount d]
  else []

/-- The record of a member at its desired location. -/
def recordHere (input : PlanInput) (d : DesiredMount) : Option MountRecord :=
  (input.state.get d.key).filter fun r => recordMatchesDesired r d

def memberActions (input : PlanInput) (d : DesiredMount) : List Action :=
  match recordHere input d with
  | some record => recordedActions input d record
  | none => unrecordedActions input d

/-- The finding about a source that does not resolve. -/
def sourceFindings (input : PlanInput) (d : DesiredMount) : List Finding :=
  match input.source d.key with
  | .resolved _ => []
  | .unavailable reason => [.sourceUnavailable d.key d.source reason]

/-- The findings about a member recorded at its desired location. -/
def recordedFindings (input : PlanInput) (d : DesiredMount) (record : MountRecord) : List Finding :=
  match input.target d.target with
  | .mounted identity _ =>
    if identity.matches record.identity then [] else [.conflict d.key d.target .targetReplaced]
  | .notMounted => sourceFindings input d
  | .unavailable reason => [.targetUnavailable d.key d.target reason]

/-- The findings about a member without a record at its desired location. -/
def unrecordedFindings (input : PlanInput) (d : DesiredMount) : List Finding :=
  if blocked input d.key then
    [.relocationBlocked d.key ((input.state.get d.key).elim d.target MountRecord.targetLocation)]
  else
    match input.target d.target with
    | .unavailable reason => [.targetUnavailable d.key d.target reason]
    | _ =>
      if vacated input d.target then sourceFindings input d
      else [.conflict d.key d.target .foreignMount]

def memberFindings (input : PlanInput) (d : DesiredMount) : List Finding :=
  match recordHere input d with
  | some record => recordedFindings input d record
  | none => unrecordedFindings input d

theorem recordHere_iff {input : PlanInput} {d : DesiredMount} {r : MountRecord} :
    recordHere input d = some r ↔ input.state.get d.key = some r ∧
      r.sourceLocation = d.source ∧ r.targetLocation = d.target := by
  simp [recordHere,Option.filter_eq_some_iff,recordMatchesDesired]

/-- What holds of the dependencies of a step: they are removals without dependencies of their
own, and a mount waits for the removal of the member's record unless that record is at the
desired location and its mount is gone. -/
structure DepsOk (input : PlanInput) (steps : List (Action × List ℕ)) (step : Action × List ℕ) :
    Prop where
  removals : ∀ id ∈ step.2, ∃ a, steps[id]? = some (a,[]) ∧ a.phase = 0
  waits : ∀ d, step.1 = .mount d → ∀ r, input.state.get d.key = some r →
    (∃ id ∈ step.2, ∃ a, steps[id]? = some (a,[]) ∧ a.Removes r) ∨
      (r.sourceLocation = d.source ∧ r.targetLocation = d.target ∧
        input.target d.target = .notMounted)

/-- Nothing is mounted at the target, or the mount there is removed by a step with one of the
ids. -/
def ClearedBy (input : PlanInput) (steps : List (Action × List ℕ)) (t : Location)
    (ids : List ℕ) : Prop :=
  input.target t = .notMounted ∨ ∃ id ∈ ids, ∃ r reason identity attrs,
    steps[id]? = some (.unmount r reason,[]) ∧ r.targetLocation = t ∧
      input.target t = .mounted identity attrs ∧ identity.matches r.identity = true

/-- What holds of a step: only a mount has dependencies, and it waits until its target is
cleared. -/
structure StepJustified (input : PlanInput) (steps : List (Action × List ℕ))
    (step : Action × List ℕ) : Prop extends DepsOk input steps step where
  leaf : step.1.phase = 0 → step.2 = []
  cleared : ∀ d, step.1 = .mount d → ClearedBy input steps d.target step.2

theorem DepsOk.append {input : PlanInput} {steps : List (Action × List ℕ)}
    {step : Action × List ℕ} (h : DepsOk input steps step) (new : List (Action × List ℕ)) :
    DepsOk input (steps++new) step where
  removals := by
    intro id hid
    obtain ⟨a,ha,hp⟩ := h.removals id hid
    exact ⟨a,getElem?_append_some ha,hp⟩
  waits := by
    intro d hd r hr
    rcases h.waits d hd r hr with ⟨id,hid,a,hs,ha⟩ | hh
    · exact .inl ⟨id,hid,a,getElem?_append_some hs,ha⟩
    · exact .inr hh

theorem StepJustified.append {input : PlanInput} {steps : List (Action × List ℕ)}
    {step : Action × List ℕ} (h : StepJustified input steps step) (new : List (Action × List ℕ)) :
    StepJustified input (steps++new) step where
  toDepsOk := h.toDepsOk.append new
  leaf := h.leaf
  cleared := by
    intro d hd
    rcases h.cleared d hd with hn | ⟨id,hid,r,reason,identity,attrs,hs,hh⟩
    · exact .inl hn
    · exact .inr ⟨id,hid,r,reason,identity,attrs,getElem?_append_some hs,hh⟩

/-- A step without dependencies that is no mount. -/
theorem justified_removal {input : PlanInput} {steps : List (Action × List ℕ)} {a : Action}
    (ha : ∀ d, a ≠ .mount d) : StepJustified input steps (a,[]) where
  removals := by simp
  waits := fun d hd => absurd hd (ha d)
  leaf := fun _ => rfl
  cleared := fun d hd => absurd hd (ha d)

/-- A mount that waits for what it has to wait for. -/
theorem DepsOk.justified {input : PlanInput} {steps : List (Action × List ℕ)} {d : DesiredMount}
    {ids : List ℕ} (h : DepsOk input steps (.mount d,ids))
    (hc : ClearedBy input steps d.target ids) : StepJustified input steps (.mount d,ids) where
  toDepsOk := h
  leaf := by simp [Action.phase]
  cleared := by
    intro d' hd'
    cases hd'
    exact hc

/-- The steps of `b` are those of `a` followed by steps with the given actions, its findings
those of `a` followed by the given ones. -/
structure Extends (a b : Builder) (actions : List Action) (findings : List Finding) : Prop where
  input_eq : b.input = a.input
  actions_eq : b.steps.map Prod.fst = a.steps.map Prod.fst ++ actions
  findings_eq : b.findings = a.findings ++ findings
  prefix_eq : ∃ new, b.steps = a.steps++new
  deps : (∀ step ∈ a.steps, StepJustified a.input a.steps step) →
    ∀ step ∈ b.steps, StepJustified a.input b.steps step

namespace Extends

theorem refl (a : Builder) : Extends a a [] [] :=
  ⟨rfl,by simp,by simp,⟨[],by simp⟩,fun h => h⟩

theorem report (a : Builder) (f : Finding) : Extends a (a.report f) [] [f] :=
  ⟨rfl,by simp [Builder.report],rfl,⟨[],by simp [Builder.report]⟩,fun h => h⟩

theorem push {a : Builder} {action : Action} {ids : List ℕ}
    (h : StepJustified a.input a.steps (action,ids)) :
    Extends a (a.push action ids).1 [action] [] where
  input_eq := rfl
  actions_eq := by simp [Builder.push]
  findings_eq := (List.append_nil a.findings).symm
  prefix_eq := ⟨[(action,ids)],rfl⟩
  deps := by
    intro ha step hs
    rcases List.mem_append.mp hs with hs | hs
    · exact (ha step hs).append _
    · rw [List.mem_singleton.mp hs]
      exact h.append _

theorem trans {a b c : Builder} {xs ys : List Action} {fs gs : List Finding}
    (h₁ : Extends a b xs fs) (h₂ : Extends b c ys gs) : Extends a c (xs++ys) (fs++gs) where
  input_eq := h₂.input_eq.trans h₁.input_eq
  actions_eq := by rw [h₂.actions_eq,h₁.actions_eq,List.append_assoc]
  findings_eq := by rw [h₂.findings_eq,h₁.findings_eq,List.append_assoc]
  prefix_eq := by
    obtain ⟨n₁,hn₁⟩ := h₁.prefix_eq
    obtain ⟨n₂,hn₂⟩ := h₂.prefix_eq
    exact ⟨n₁++n₂,by rw [hn₂,hn₁,List.append_assoc]⟩
  deps := by
    intro ha
    have hb := h₁.deps ha
    rw [← h₁.input_eq] at hb ⊢
    exact h₂.deps hb

end Extends

theorem mountIfResolved_extends {b : Builder} {d : DesiredMount} {ids : List ℕ}
    (h : StepJustified b.input b.steps (.mount d,ids)) :
    Extends b (mountIfResolved b d ids (b.input.source d.key))
      (if b.input.source d.key matches .resolved _ then [.mount d] else [])
      (sourceFindings b.input d) := by
  unfold sourceFindings
  cases b.input.source d.key with
  | resolved root => exact Extends.push h
  | unavailable reason => exact Extends.report b _

/-- An unmatched record of an accepted member departs. -/
theorem departs_of_unrecorded {input : PlanInput} {d : DesiredMount} {r : MountRecord}
    (hd : Accepts input d) (hr : input.state.get d.key = some r) (hn : recordHere input d = none) :
    departs input r = true := by
  have hk : r.key = d.key := State.key_of_get hr
  have hm : recordMatchesDesired r d = false := by
    simpa [recordHere,hr,Option.filter_some] using hn
  rw [departs_iff]
  constructor
  · have hf := hd.notFrozen
    rwa [← hk] at hf
  · intro e he hek
    have h₁ := (accepted_get input d.key d).mpr ⟨rfl,hd⟩
    have h₂ := (accepted_get input d.key e).mpr ⟨hek.trans hk,he⟩
    rw [h₁] at h₂
    cases h₂
    exact hm

/-- The dependency on the removal of the member's old record. -/
theorem removal_of_unrecorded {b : Builder} {d : DesiredMount} {departures : Departures}
    (hd : Accepts b.input d) (hn : recordHere b.input d = none)
    (h : DeparturesOk b.input b.steps b.input.state.records departures) :
    match departures.oldRecordRemoval[d.key]? with
    | some none => blocked b.input d.key = true
    | some (some id) => blocked b.input d.key = false ∧ DepsOk b.input b.steps (.mount d,[id])
    | none => blocked b.input d.key = false ∧ DepsOk b.input b.steps (.mount d,[]) := by
  have hkey : ∀ r ∈ b.input.state.records, r.key = d.key → b.input.state.get d.key = some r := by
    intro r hr hk
    rw [← hk]
    exact State.mem_records.mp hr
  cases hrem : departures.oldRecordRemoval[d.key]? with
  | none =>
    have hg : b.input.state.get d.key = none := by
      by_contra hne
      obtain ⟨r,hr⟩ := Option.ne_none_iff_exists'.mp hne
      have hdep := departs_of_unrecorded hd hr hn
      exact h.removal.get_none.mp hrem r (State.mem_records_of_get hr) hdep (State.key_of_get hr)
    refine ⟨by simp [blocked,hg],⟨by simp,?_⟩⟩
    intro d' hd' r hr
    cases hd'
    rw [hg] at hr
    cases hr
  | some o =>
    obtain ⟨r,hr,hdep,hk,hof⟩ := h.removal.of_get hrem
    have hg := hkey r hr hk
    cases o with
    | none =>
      have ha : departAction b.input r = none := hof
      simp [blocked,hg,hdep,ha]
    | some i =>
      obtain ⟨a,ha,hs⟩ := hof
      refine ⟨by simp [blocked,hg,ha],⟨?_,?_⟩⟩
      · intro i' hi'
        rw [List.mem_singleton.mp hi']
        exact ⟨a,hs,(departAction_removes ha).phase_eq⟩
      · intro d' hd' r' hr'
        cases hd'
        rw [hg] at hr'
        cases hr'
        exact .inl ⟨i,by simp,a,hs,departAction_removes ha⟩

/-- A dependency on a removal may be added. -/
theorem DepsOk.add {input : PlanInput} {steps : List (Action × List ℕ)} {a b : Action}
    {ids : List ℕ} (h : DepsOk input steps (a,ids)) {i : ℕ} (hi : steps[i]? = some (b,[]))
    (hb : b.phase = 0) : DepsOk input steps (a,ids++[i]) where
  removals := by
    intro j hj
    rcases List.mem_append.mp hj with hj | hj
    · exact h.removals j hj
    · rw [List.mem_singleton.mp hj]
      exact ⟨b,hi,hb⟩
  waits := by
    intro d hd r hr
    rcases h.waits d hd r hr with ⟨j,hj,hh⟩ | hh
    · exact .inl ⟨j,List.mem_append_left _ hj,hh⟩
    · exact .inr hh

theorem placeMember_extends {b : Builder} {d : DesiredMount} {departures : Departures}
    {deps : List ℕ} (h : DeparturesOk b.input b.steps b.input.state.records departures)
    (hb : blocked b.input d.key = false) (hdeps : DepsOk b.input b.steps (.mount d,deps)) :
    Extends b (placeMember b d departures deps (b.input.target d.target) (b.input.source d.key))
      (unrecordedActions b.input d) (unrecordedFindings b.input d) := by
  unfold placeMember
  cases ht : b.input.target d.target with
  | notMounted =>
    have hm := mountIfResolved_extends (hdeps.justified (.inl ht))
    simpa [unrecordedActions,unrecordedFindings,hb,vacated,ht] using hm
  | unavailable reason =>
    simpa [unrecordedActions,unrecordedFindings,hb,vacated,ht] using Extends.report b _
  | mounted identity attrs =>
    cases hf : departures.freedTargets[d.target]? with
    | none =>
      have hv : vacated b.input d.target = false := by
        have hh := h.freed.get_none.mp hf
        simp only [vacated,ht,List.any_eq_false,Bool.and_eq_true,decide_eq_true_eq,not_and]
        exact hh
      simpa [unrecordedActions,unrecordedFindings,hb,hv,ht] using Extends.report b _
    | some freed =>
      obtain ⟨r,hr,hfr,hl,⟨reason,hs⟩,attrs',ht'⟩ := h.freed.of_get hf
      rw [hl,ht] at ht'
      have hid : freed.2 = identity := by
        cases ht'
        rfl
      have hv : vacated b.input d.target = true := by
        simp only [vacated,ht,List.any_eq_true,Bool.and_eq_true,decide_eq_true_eq]
        exact ⟨r,hr,hfr,hl⟩
      have hmatch : identity.matches r.identity = true := by
        simp only [frees,TargetState.shows,hl,ht,Bool.and_eq_true] at hfr
        exact hfr.2
      have hc : ClearedBy b.input b.steps d.target (deps++[freed.1]) :=
        .inr ⟨freed.1,by simp,r,reason,identity,attrs,hs,hl,ht,hmatch⟩
      have hm := mountIfResolved_extends ((hdeps.add hs rfl).justified hc)
      simpa [unrecordedActions,unrecordedFindings,hb,hv,hid,ht,Option.filter_some] using hm

theorem planUnrecordedMember_extends {b : Builder} {d : DesiredMount} {departures : Departures}
    (hd : Accepts b.input d) (hn : recordHere b.input d = none)
    (h : DeparturesOk b.input b.steps b.input.state.records departures) :
    Extends b (planUnrecordedMember b d departures (b.input.target d.target) (b.input.source d.key))
      (unrecordedActions b.input d) (unrecordedFindings b.input d) := by
  have hrem := removal_of_unrecorded hd hn h
  unfold planUnrecordedMember
  cases ho : departures.oldRecordRemoval[d.key]? with
  | none =>
    rw [ho] at hrem
    exact placeMember_extends h hrem.1 hrem.2
  | some o =>
    rw [ho] at hrem
    cases o with
    | none =>
      have hb : blocked b.input d.key = true := hrem
      simp only [unrecordedActions,unrecordedFindings,hb,Bool.not_true,Bool.false_and,
        Bool.false_eq_true,if_false,if_true]
      cases b.input.state.get d.key <;> exact Extends.report b _
    | some i => exact placeMember_extends h hrem.1 hrem.2

theorem remount_extends {b : Builder} {d : DesiredMount} {record : MountRecord}
    {reason : UnmountReason} (hr : b.input.state.get d.key = some record)
    (hl : record.targetLocation = d.target) {identity : MountIdentity}
    {attrs : Option ObservedAttrs} (ht : b.input.target d.target = .mounted identity attrs)
    (hi : identity.matches record.identity = true) :
    Extends b (remount b d record reason) [.unmount record reason,.mount d] [] := by
  have h₁ : Extends b (b.push (.unmount record reason) []).1 [.unmount record reason] [] :=
    Extends.push (justified_removal (by simp))
  have hlast : (b.push (.unmount record reason) []).1.steps[b.steps.length]? =
      some (.unmount record reason,[]) := by
    simp [Builder.push]
  have h₂ : DepsOk (b.push (.unmount record reason) []).1.input
      (b.push (.unmount record reason) []).1.steps (.mount d,[b.steps.length]) := by
    refine ⟨?_,?_⟩
    · intro i hi
      rw [List.mem_singleton.mp hi]
      exact ⟨_,hlast,rfl⟩
    · intro d' hd' r hr'
      cases hd'
      have hrr : r = record := by
        rw [h₁.input_eq,hr] at hr'
        exact (Option.some.inj hr').symm
      rw [hrr]
      exact .inl ⟨b.steps.length,by simp,_,hlast,.inl ⟨reason,rfl⟩⟩
  have hc : ClearedBy (b.push (.unmount record reason) []).1.input
      (b.push (.unmount record reason) []).1.steps d.target [b.steps.length] :=
    .inr ⟨b.steps.length,by simp,record,reason,identity,attrs,hlast,hl,ht,hi⟩
  exact h₁.trans (Extends.push (h₂.justified hc))

theorem planRecordedMember_extends {b : Builder} {d : DesiredMount} {record : MountRecord}
    (hr : recordHere b.input d = some record) :
    Extends b (planRecordedMember b d record (b.input.target d.target) (b.input.source d.key))
      (recordedActions b.input d record) (recordedFindings b.input d record) := by
  obtain ⟨hg,hsl,htl⟩ := recordHere_iff.mp hr
  unfold planRecordedMember recordedActions recordedFindings sourceFindings
  cases ht : b.input.target d.target with
  | notMounted =>
    have hm : DepsOk b.input b.steps (.mount d,[]) := by
      refine ⟨by simp,?_⟩
      intro d' hd' r hr'
      cases hd'
      rw [hg] at hr'
      cases hr'
      exact .inr ⟨hsl,htl,ht⟩
    cases hs : b.input.source d.key with
    | resolved root => exact Extends.push (hm.justified (.inl ht))
    | unavailable reason =>
      exact (Extends.push (justified_removal (by simp))).trans (Extends.report _ _)
  | mounted identity attrs =>
    by_cases hi : identity.matches record.identity = true
    · simp only [hi,if_true]
      cases hs : b.input.source d.key with
      | resolved root =>
        by_cases hroot : root = record.identity.root
        · simp only [hroot,if_true]
          cases ha : attributeReason d record attrs with
          | none => exact Extends.refl b
          | some reason => exact remount_extends hg htl ht hi
        · simp only [hroot,if_false]
          exact remount_extends hg htl ht hi
      | unavailable reason => exact Extends.push (justified_removal (by simp))
    · simp only [hi]
      exact Extends.report b _
  | unavailable reason => exact Extends.report b _

theorem planMember_extends {b : Builder} {departures : Departures} {d : DesiredMount}
    (hd : Accepts b.input d) (h : DeparturesOk b.input b.steps b.input.state.records departures) :
    Extends b (planMember departures b (d.key,d)) (memberActions b.input d)
      (memberFindings b.input d) := by
  unfold planMember memberActions memberFindings
  cases hr : recordHere b.input d with
  | none =>
    have hf : (b.input.state.get d.key).filter (fun r => recordMatchesDesired r d) = none := hr
    simp only [hf]
    exact planUnrecordedMember_extends hd hr h
  | some record =>
    have hf : (b.input.state.get d.key).filter (fun r => recordMatchesDesired r d) = some record := hr
    simp only [hf]
    exact planRecordedMember_extends hr

/-! ### The whole plan -/

/-- The actions of the removal phase's first loop, then those of the members by key. -/
def plannedActions (input : PlanInput) : List Action :=
  input.state.records.filterMap (departAction input) ++
    (accepted input).toList.flatMap fun e => memberActions input e.2

theorem planMembers_extends (departures : Departures) (entries : List (RecordKey × DesiredMount))
    (b : Builder) (he : ∀ e ∈ entries, e.1 = e.2.key ∧ Accepts b.input e.2)
    (h : DeparturesOk b.input b.steps b.input.state.records departures) :
    Extends b (entries.foldl (planMember departures) b)
      (entries.flatMap fun e => memberActions b.input e.2)
      (entries.flatMap fun e => memberFindings b.input e.2) := by
  induction entries generalizing b with
  | nil => exact Extends.refl b
  | cons e entries ih =>
    obtain ⟨hk,ha⟩ := he e (by simp)
    have h₁ : Extends b (planMember departures b e) (memberActions b.input e.2)
        (memberFindings b.input e.2) := by
      have hm := planMember_extends ha h
      rwa [← hk] at hm
    obtain ⟨new,hnew⟩ := h₁.prefix_eq
    have h₂ := ih (planMember departures b e)
      (fun e' he' => by rw [h₁.input_eq]; exact he e' (by simp [he']))
      (by rw [h₁.input_eq,hnew]; exact h.append new)
    rw [h₁.input_eq] at h₂
    exact h₁.trans h₂

/-- The findings about shared targets, then those about departing records, then those about the
members by key. -/
def plannedFindings (input : PlanInput) : List Finding :=
  ((byTarget input).toList.filterMap fun e => collisionFinding input e.1 e.2) ++
    input.state.records.filterMap (departFinding input) ++
    (accepted input).toList.flatMap fun e => memberFindings input e.2

theorem planBuilder_spec (input : PlanInput) :
    (planBuilder input).steps.map Prod.fst = plannedActions input ∧
      (planBuilder input).findings = plannedFindings input ∧
      ∀ step ∈ (planBuilder input).steps, StepJustified input (planBuilder input).steps step := by
  have hc := resolveCollisions_collected ⟨input,[],[]⟩
  have hi : (resolveCollisions ⟨input,[],[]⟩).1.input = input := hc.input_eq
  have hd := planDepartingRecords_departed (b := (resolveCollisions ⟨input,[],[]⟩).1) hc.steps_eq
  rw [hi] at hd
  obtain ⟨hi',hs,hok⟩ := hd
  have hf := planDepartingRecords_findings (resolveCollisions ⟨input,[],[]⟩).1
  rw [hi,hc.findings_eq] at hf
  have he : ∀ e ∈ (accepted input).toList, e.1 = e.2.key ∧ Accepts input e.2 :=
    fun e h => mem_accepted.mp h
  have hm := planMembers_extends
    (planDepartingRecords (resolveCollisions ⟨input,[],[]⟩).1 (accepted input)).2 (accepted input).toList
    (planDepartingRecords (resolveCollisions ⟨input,[],[]⟩).1 (accepted input)).1
    (by rw [hi']; exact he) (by rw [hi']; exact hok)
  rw [hi'] at hm
  have hb : planBuilder input = (accepted input).toList.foldl
      (planMember (planDepartingRecords (resolveCollisions ⟨input,[],[]⟩).1 (accepted input)).2)
      (planDepartingRecords (resolveCollisions ⟨input,[],[]⟩).1 (accepted input)).1 := rfl
  rw [hb]
  refine ⟨?_,?_,?_⟩
  · rw [hm.actions_eq,hs]
    simp [plannedActions,Function.comp_def]
  · rw [hm.findings_eq,hf]
    rfl
  · have hdeps := hm.deps
    rw [hi'] at hdeps
    apply hdeps
    intro step hstep
    rw [hs] at hstep
    obtain ⟨a,ha,rfl⟩ := List.mem_map.mp hstep
    obtain ⟨r,-,hra⟩ := List.mem_filterMap.mp ha
    apply justified_removal
    rintro d rfl
    rcases departAction_removes hra with ⟨_,h⟩ | ⟨_,h⟩ <;> cases h

theorem Action.phase_le_one (a : Action) : a.phase ≤ 1 := by
  cases a <;> simp [Action.phase]

theorem phaseOrder_eq (steps : List (Action × List ℕ)) :
    phaseOrder steps =
      (List.range steps.length).filter (fun i => (steps[i]?).any fun s => s.1.phase = 0) ++
      (List.range steps.length).filter (fun i => (steps[i]?).any fun s => s.1.phase ≠ 0) := by
  unfold phaseOrder
  rw [Lists.insertionSort_two_ranks (phaseAt steps)]
  · congr 1
    · apply List.filter_congr
      intro i hi
      have hlt : i < steps.length := by simpa using hi
      simp [phaseAt,List.getElem?_eq_getElem hlt]
    · apply List.filter_congr
      intro i hi
      have hlt : i < steps.length := by simpa using hi
      simp [phaseAt,List.getElem?_eq_getElem hlt]
  · intro i _
    unfold phaseAt
    cases steps[i]? with
    | none => simp
    | some s => simpa using Action.phase_le_one s.1

theorem phaseOrder_perm (steps : List (Action × List ℕ)) :
    (phaseOrder steps).Perm (List.range steps.length) :=
  List.perm_insertionSort _ _

theorem mem_phaseOrder {steps : List (Action × List ℕ)} {i : ℕ} :
    i ∈ phaseOrder steps ↔ i < steps.length := by
  rw [(phaseOrder_perm steps).mem_iff,List.mem_range]

/-- The final step at a position is the builder step whose id stands there. -/
theorem finish_get (b : Builder) (i : ℕ) :
    b.finish.steps[i]? = ((phaseOrder b.steps)[i]?.bind fun id => b.steps[id]?.map fun s =>
      ⟨s.1,((s.2.map (phaseOrder b.steps).idxOf).insertionSort (· ≤ ·)).dedup⟩) := by
  apply Lists.getElem?_filterMap
  intro id hid
  have hlt : id < b.steps.length := mem_phaseOrder.mp hid
  simp [List.getElem?_eq_getElem hlt]

/-- A dependency on an id becomes one on the position of that step. -/
theorem finish_get_idxOf {b : Builder} {id : ℕ} {a : Action} {ids : List ℕ}
    (h : b.steps[id]? = some (a,ids)) :
    ∃ deps, b.finish.steps[(phaseOrder b.steps).idxOf id]? = some ⟨a,deps⟩ := by
  have hid : id ∈ phaseOrder b.steps := mem_phaseOrder.mpr (List.getElem?_eq_some_iff.mp h).1
  refine ⟨((ids.map (phaseOrder b.steps).idxOf).insertionSort (· ≤ ·)).dedup,?_⟩
  rw [finish_get,List.getElem?_idxOf hid]
  simp [h]

theorem finish_actions (b : Builder) :
    b.finish.steps.map Step.action =
      (b.steps.map Prod.fst).filter (fun a => a.phase = 0) ++
        (b.steps.map Prod.fst).filter (fun a => a.phase ≠ 0) := by
  have hm : b.finish.steps.map Step.action =
      ((phaseOrder b.steps).filterMap fun id => b.steps[id]?).map Prod.fst := by
    unfold Builder.finish
    rw [List.map_filterMap,List.map_filterMap]
    congr 1
    funext id
    cases b.steps[id]? <;> rfl
  rw [hm,phaseOrder_eq,List.filterMap_append,List.map_append,
    Lists.filterMap_range_filter b.steps fun s => s.1.phase = 0,
    Lists.filterMap_range_filter b.steps fun s => s.1.phase ≠ 0,List.filter_map,List.filter_map]
  rfl

/-- The plan: all removals, then all mounts. -/
theorem plan_actions (input : PlanInput) :
    (plan input).steps.map Step.action =
      (plannedActions input).filter (fun a => a.phase = 0) ++
        (plannedActions input).filter (fun a => a.phase ≠ 0) := by
  unfold plan
  rw [finish_actions,(planBuilder_spec input).1]

theorem plan_findings (input : PlanInput) : (plan input).findings = plannedFindings input :=
  (planBuilder_spec input).2.1

theorem mem_plan_actions {input : PlanInput} {a : Action} :
    a ∈ (plan input).steps.map Step.action ↔ a ∈ plannedActions input := by
  rw [plan_actions,List.mem_append,List.mem_filter,List.mem_filter]
  by_cases h : a.phase = 0 <;> simp [h]

/-- A planned mount waits for the removal of the member's record, unless that record
has the same target and nothing is mounted there. -/
theorem plan_mount_waits {input : PlanInput} {i : ℕ} {d : DesiredMount} {deps : List ℕ}
    {r : MountRecord} (h : (plan input).steps[i]? = some ⟨.mount d,deps⟩)
    (hr : input.state.get d.key = some r) :
    (∃ j ∈ deps, ∃ a js, (plan input).steps[j]? = some ⟨a,js⟩ ∧ a.Removes r) ∨
      (r.targetLocation = d.target ∧ input.target d.target = .notMounted) := by
  unfold plan at h ⊢
  rw [finish_get] at h
  obtain ⟨id,-,hid⟩ := Option.bind_eq_some_iff.mp h
  obtain ⟨step,hstep,heq⟩ := Option.map_eq_some_iff.mp hid
  obtain ⟨a,ids⟩ := step
  simp only [Step.mk.injEq] at heq
  obtain ⟨rfl,hdeps⟩ := heq
  have hmem : (Action.mount d,ids) ∈ (planBuilder input).steps := List.mem_of_getElem? hstep
  have hok := (planBuilder_spec input).2.2 _ hmem
  rcases hok.waits d rfl r hr with ⟨j,hj,a,hs,ha⟩ | hh
  · obtain ⟨js,hjs⟩ := finish_get_idxOf hs
    refine .inl ⟨_,?_,a,js,hjs,ha⟩
    rw [← hdeps,List.mem_dedup,List.mem_insertionSort]
    exact List.mem_map_of_mem hj
  · exact .inr hh.2

end Byssus
