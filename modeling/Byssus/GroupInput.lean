import Byssus.PlanSteps

/-! The part of the planner's input that is about one group.
Where no other group has one of its targets, its collisions are resolved as if it were alone. -/
namespace Byssus

open Std

/-- The records of the group. -/
def State.restrict (s : State) (g : GroupId) : State where
  map := s.map.filter fun k _ => k.group = g
  keyed := by
    intro k r h
    rw [ExtTreeMap.getElem?_filter',Option.filter_eq_some_iff] at h
    exact s.keyed k r h.1

theorem State.get_restrict {s : State} {g : GroupId} {k : RecordKey} :
    (s.restrict g).get k = if k.group = g then s.get k else none := by
  unfold State.get State.restrict
  rw [ExtTreeMap.getElem?_filter']
  by_cases hk : k.group = g <;> cases s.map[k]? <;> simp [hk]

theorem State.records_restrict (s : State) (g : GroupId) :
    (s.restrict g).records = s.records.filter fun r => r.group = g := by
  unfold State.records State.restrict
  rw [ExtTreeMap.toList_filter,List.filter_map]
  congr 1
  apply List.filter_congr
  rintro ⟨k,r⟩ h
  rw [ExtTreeMap.mem_toList_iff_getElem?_eq_some] at h
  rw [← s.keyed k r h]
  rfl

namespace PlanInput

/-- The desired mounts of the group. -/
def desiredOf (input : PlanInput) (g : GroupId) : List DesiredMount :=
  input.desired.filter fun d => d.key.group = g

/-- The desired and the recorded targets of the group. -/
def targetsOf (input : PlanInput) (g : GroupId) : List Location :=
  (input.desiredOf g).map DesiredMount.target++
    (input.state.records.filter fun r => r.group = g).map MountRecord.targetLocation

/-- The part of the input that is about the group. -/
def restrict (input : PlanInput) (g : GroupId) : PlanInput where
  desired := input.desiredOf g
  state := input.state.restrict g
  frozenGroups := input.frozenGroups.filter (· = g)
  observations := {
    sources := (input.desiredOf g).foldl (fun m d => m.insert d.key (input.source d.key)) ∅
    targets := (input.targetsOf g).foldl (fun m l => m.insert l (input.target l)) ∅ }

/-- Two inputs with the same group: its desired mounts, its records, whether it is frozen, and
what is observed of its members' sources and its targets. -/
structure AgreeOn (g : GroupId) (a b : PlanInput) : Prop where
  desired : a.desiredOf g = b.desiredOf g
  records : ∀ name, a.state.get ⟨g,name⟩ = b.state.get ⟨g,name⟩
  frozen : g ∈ a.frozenGroups ↔ g ∈ b.frozenGroups
  source : ∀ d ∈ a.desiredOf g, a.source d.key = b.source d.key
  target : ∀ l ∈ a.targetsOf g, a.target l = b.target l

/-- No other group that is not frozen has a target of the group. -/
def Isolated (input : PlanInput) (g : GroupId) : Prop :=
  ∀ h, h ≠ g → h ∉ input.frozenGroups → (input.targetsOf h).Disjoint (input.targetsOf g)

variable {input : PlanInput} {g : GroupId}

theorem foldl_insert_congr {α κ β : Type} [Ord κ] [TransOrd κ] (key : α → κ) (f f' : κ → β)
    {l : List α} (h : ∀ a ∈ l, f (key a) = f' (key a)) (m : ExtTreeMap κ β) :
    l.foldl (fun m a => m.insert (key a) (f (key a))) m =
      l.foldl (fun m a => m.insert (key a) (f' (key a))) m := by
  induction l generalizing m with
  | nil => rfl
  | cons a l ih =>
    rw [List.foldl_cons,List.foldl_cons,h a (by simp)]
    exact ih (fun b hb => h b (by simp [hb])) _

theorem AgreeOn.restrict_eq {a b : PlanInput} (h : AgreeOn g a b) :
    a.restrict g = b.restrict g := by
  have hstate : a.state.restrict g = b.state.restrict g := by
    apply State.ext
    intro k
    rw [State.get_restrict,State.get_restrict]
    split_ifs with hk
    · rw [← hk] at h
      exact h.records k.name
    · rfl
  have htargets : a.targetsOf g = b.targetsOf g := by
    unfold targetsOf
    rw [h.desired,← State.records_restrict,← State.records_restrict,hstate]
  have hfrozen : a.frozenGroups.filter (· = g) = b.frozenGroups.filter (· = g) := by
    ext x
    simp only [Finset.mem_filter,and_congr_left_iff]
    rintro rfl
    exact h.frozen
  unfold restrict
  rw [foldl_insert_congr DesiredMount.key _ _ h.source,h.desired,hstate,hfrozen]
  have hmap := foldl_insert_congr id a.target b.target h.target ∅
  simp only [id] at hmap
  rw [hmap,htargets]

theorem mem_targetsOf_of_desired {d : DesiredMount} (hd : d ∈ input.desired) :
    d.target ∈ input.targetsOf d.key.group :=
  List.mem_append_left _ (List.mem_map_of_mem (List.mem_filter.mpr ⟨hd,by simp⟩))

theorem mem_targetsOf_of_record {r : MountRecord} (hr : r ∈ input.state.records) :
    r.targetLocation ∈ input.targetsOf r.group :=
  List.mem_append_right _ (List.mem_map_of_mem (List.mem_filter.mpr ⟨hr,by simp⟩))

theorem mem_desiredOf {d : DesiredMount} :
    d ∈ input.desiredOf g ↔ d ∈ input.desired ∧ d.key.group = g := by
  simp [desiredOf]

/-- It is enough to look at the members and the records of other groups. -/
theorem isolated_iff : input.Isolated g ↔
    (∀ d ∈ input.desired, d.key.group ≠ g → d.key.group ∉ input.frozenGroups →
      d.target ∉ input.targetsOf g) ∧
    ∀ r ∈ input.state.records, r.group ≠ g → r.group ∉ input.frozenGroups →
      r.targetLocation ∉ input.targetsOf g := by
  constructor
  · intro h
    exact ⟨fun d hd hg hf hl => h _ hg hf (mem_targetsOf_of_desired hd) hl,
      fun r hr hg hf hl => h _ hg hf (mem_targetsOf_of_record hr) hl⟩
  · rintro ⟨hdesired,hrecords⟩ h hg hf l hl
    rcases List.mem_append.mp hl with hl | hl
    · obtain ⟨d,hd,rfl⟩ := List.mem_map.mp hl
      obtain ⟨hmem,rfl⟩ := mem_desiredOf.mp hd
      exact hdesired d hmem hg hf
    · obtain ⟨r,hr,rfl⟩ := List.mem_map.mp hl
      obtain ⟨hmem,hrg⟩ := List.mem_filter.mp hr
      have hrg' : r.group = h := of_decide_eq_true hrg
      subst hrg'
      exact hrecords r hmem hg hf

instance : Decidable (input.Isolated g) := decidable_of_iff _ isolated_iff.symm

theorem restrict_target {l : Location} (hl : l ∈ input.targetsOf g) :
    (input.restrict g).target l = input.target l := by
  have hget : (input.restrict g).observations.targets[l]? = some (input.target l) := by
    refine (Maps.getElem?_foldl_insert_of_unique ?_ ∅).mpr (.inl ⟨l,hl,rfl,rfl⟩)
    exact fun _ _ _ _ h => congrArg input.target h
  rw [target,hget]
  rfl

theorem restrict_source {d : DesiredMount} (hd : d ∈ input.desiredOf g) :
    (input.restrict g).source d.key = input.source d.key := by
  have hget : (input.restrict g).observations.sources[d.key]? = some (input.source d.key) := by
    refine (Maps.getElem?_foldl_insert_of_unique ?_ ∅).mpr (.inl ⟨d,hd,rfl,rfl⟩)
    exact fun _ _ _ _ h => congrArg input.source h
  rw [source,hget]
  rfl

theorem restrict_get {k : RecordKey} (hk : k.group = g) :
    (input.restrict g).state.get k = input.state.get k := by
  show (input.state.restrict g).get k = _
  rw [State.get_restrict,if_pos hk]

theorem mem_restrict_frozen : g ∈ (input.restrict g).frozenGroups ↔ g ∈ input.frozenGroups := by
  simp [restrict]

end PlanInput

/-! ### Collisions -/

section
variable {input : PlanInput} {g : GroupId}

/-- At a target of the group only the group's members collide. -/
theorem membersAt_restrict (hi : input.Isolated g) {t : Location} (ht : t ∈ input.targetsOf g) :
    membersAt (input.restrict g) t = membersAt input t := by
  unfold membersAt
  show List.filter _ (input.desired.filter _) = _
  rw [List.filter_filter]
  apply List.filter_congr
  intro d hd
  by_cases hg : d.key.group = g
  · subst hg
    simp [PlanInput.restrict]
  · have hother : ¬(d.key.group ∉ input.frozenGroups ∧ d.target = t) := by
      rintro ⟨hf,rfl⟩
      exact hi d.key.group hg hf (PlanInput.mem_targetsOf_of_desired hd) ht
    simp only [hg,decide_false,Bool.and_false,hother]

theorem membersAt_restrict_nil {t : Location} (ht : t ∉ input.targetsOf g) :
    membersAt (input.restrict g) t = [] := by
  rw [membersAt,List.filter_eq_nil_iff]
  intro d hd
  obtain ⟨hmem,rfl⟩ := PlanInput.mem_desiredOf.mp hd
  simp only [decide_eq_true_eq,not_and]
  rintro - rfl
  exact ht (PlanInput.mem_targetsOf_of_desired hmem)

theorem group_of_membersAt (hi : input.Isolated g) {t : Location} (ht : t ∈ input.targetsOf g)
    {d : DesiredMount} (hd : d ∈ membersAt input t) : d.key.group = g := by
  rw [← membersAt_restrict hi ht] at hd
  exact (PlanInput.mem_desiredOf.mp (mem_membersAt.mp hd).1).2

theorem find_verified_restrict {t : Location} (ht : t ∈ input.targetsOf g)
    {members : List DesiredMount} (hm : ∀ d ∈ members, d.key.group = g) :
    members.find? (isVerified (input.restrict g) ((input.restrict g).target t)) =
      members.find? (isVerified input (input.target t)) := by
  have hsame : ∀ d ∈ members, isVerified (input.restrict g) ((input.restrict g).target t) d =
      isVerified input (input.target t) d := by
    intro d hd
    unfold isVerified
    rw [PlanInput.restrict_get (hm d hd),PlanInput.restrict_target ht]
  rw [← List.head?_filter,← List.head?_filter,List.filter_congr hsame]

theorem chosen_restrict (hi : input.Isolated g) {t : Location} (ht : t ∈ input.targetsOf g) :
    chosen (input.restrict g) t = chosen input t := by
  have hm : ∀ d ∈ membersAt input t, d.key.group = g := fun d hd => group_of_membersAt hi ht hd
  unfold chosen
  rw [membersAt_restrict hi ht]
  generalize membersAt input t = members at hm ⊢
  have hfind : (sortByKey members).find? _ = (sortByKey members).find? _ :=
    find_verified_restrict ht fun d hd => hm d ((sortByKey_perm members).mem_iff.mp hd)
  unfold keptOf
  split
  · rfl
  · exact hfind

theorem accepts_restrict (hi : input.Isolated g) {d : DesiredMount} (hd : d ∈ input.desiredOf g) :
    Accepts (input.restrict g) d ↔ Accepts input d := by
  have htarget : ∀ {e : DesiredMount}, e ∈ input.desiredOf g → e.target ∈ input.targetsOf g := by
    intro e he
    obtain ⟨hmem,rfl⟩ := PlanInput.mem_desiredOf.mp he
    exact PlanInput.mem_targetsOf_of_desired hmem
  unfold Accepts
  rw [chosen_restrict hi (htarget hd)]
  apply and_congr_right
  intro _
  constructor
  · intro h e he hc hk
    have heg : e ∈ input.desiredOf g :=
      PlanInput.mem_desiredOf.mpr ⟨he,by rw [hk]; exact (PlanInput.mem_desiredOf.mp hd).2⟩
    exact h e heg (by rw [chosen_restrict hi (htarget heg)]; exact hc) hk
  · intro h e he hc hk
    rw [chosen_restrict hi (htarget he)] at hc
    exact h e (PlanInput.mem_desiredOf.mp he).1 hc hk

/-- The group's accepted members are accepted when only the group is looked at. -/
theorem accepted_restrict (hi : input.Isolated g) :
    accepted (input.restrict g) = (accepted input).filter fun k _ => k.group = g := by
  apply ExtTreeMap.ext_getElem?
  intro k
  apply Option.ext
  intro d
  rw [ExtTreeMap.getElem?_filter',Option.filter_eq_some_iff,accepted_get,accepted_get]
  simp only [decide_eq_true_eq]
  constructor
  · rintro ⟨rfl,ha⟩
    exact ⟨⟨rfl,(accepts_restrict hi ha.mem).mp ha⟩,(PlanInput.mem_desiredOf.mp ha.mem).2⟩
  · rintro ⟨⟨rfl,ha⟩,hg⟩
    exact ⟨rfl,(accepts_restrict hi (PlanInput.mem_desiredOf.mpr ⟨ha.mem,hg⟩)).mpr ha⟩

theorem accepted_restrict_get (hi : input.Isolated g) {k : RecordKey} (hk : k.group = g) :
    (accepted (input.restrict g))[k]? = (accepted input)[k]? := by
  rw [accepted_restrict hi,ExtTreeMap.getElem?_filter']
  cases (accepted input)[k]? <;> simp [hk]

/-- The targets of the group are where its members meet. -/
theorem byTarget_restrict (hi : input.Isolated g) :
    byTarget (input.restrict g) = (byTarget input).filter fun t _ => t ∈ input.targetsOf g := by
  apply ExtTreeMap.ext_getElem?
  intro t
  rw [ExtTreeMap.getElem?_filter',byTarget_get,byTarget_get]
  by_cases ht : t ∈ input.targetsOf g
  · rw [membersAt_restrict hi ht]
    cases Maps.nonempty (membersAt input t) <;> simp [ht,Option.filter_some]
  · rw [membersAt_restrict_nil ht]
    cases Maps.nonempty (membersAt input t) <;> simp [ht]

end
end Byssus
