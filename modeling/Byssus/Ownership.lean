import Byssus.Outcomes
import Byssus.PlanFrozen

/-! Every mount that Byssus made and that is still attached is recorded.
The invariant ties the mount table to the records in memory and on disk; it is kept
by every step of a pass, whatever fails, and so by every run of passes. -/
namespace Byssus

variable {D : Type}

/-- Other processes only detach mounts. -/
def Shrinks (t t' : Table D) : Prop := ∀ dir, (t' dir).Sublist (t dir)

theorem Shrinks.refl (t : Table D) : Shrinks t t := fun _ => List.Sublist.refl _

theorem Shrinks.trans {t u v : Table D} (h₁ : Shrinks t u) (h₂ : Shrinks u v) : Shrinks t v :=
  fun dir => (h₂ dir).trans (h₁ dir)

/-- The mount was attached on `dir` for `d` at some time. -/
def World.Made (w : World D) (dir : D) (m : Mount) (d : DesiredMount) : Prop :=
  Event.attached dir m d ∈ w.trace

/-- The invariant, for targets that lead to the directories `dir`. -/
structure Owned (dir : Location → D) (unique : Bool) (w : World D) : Prop where
  located : ∀ e m d, w.Made e m d → e = dir d.target
  distinct : ∀ e m d e' m' d', w.Made e m d → w.Made e' m' d' →
    (m.readIdentity unique).matches (m'.readIdentity unique) = true → m = m' ∧ d = d'
  alone : ∀ e m d, w.Made e m d → m ∈ w.table e → w.table e = [m]
  made : ∀ k r, w.state.get k = some r ∨ w.disk.get k = some r →
    ∃ e m d now, w.Made e m d ∧ r = newRecord d (m.readIdentity unique) now
  recorded : ∀ e m d, w.Made e m d → m ∈ w.table e → ∃ now,
    w.state.get d.key = some (newRecord d (m.readIdentity unique) now) ∧
      w.disk.get d.key = some (newRecord d (m.readIdentity unique) now)

/-- No mount that the record describes is attached any more. -/
def Gone (unique : Bool) (w : World D) (r : MountRecord) : Prop :=
  ∀ e m d, w.Made e m d → (m.readIdentity unique).matches r.identity = true → m ∉ w.table e

theorem mem_of_sublist_singleton {α : Type} {xs : List α} {a b : α} (h : xs.Sublist [a])
    (hb : b ∈ xs) : xs = [a] ∧ b = a := by
  rcases List.sublist_singleton.mp h with rfl | rfl
  · cases hb
  · exact ⟨rfl,List.mem_singleton.mp hb⟩

namespace Owned

variable {dir : Location → D} {unique : Bool} {w v : World D}

/-- The record of an attached mount, found by its identity. -/
theorem record_unique (h : Owned dir unique w) {e : D} {m : Mount} {d : DesiredMount}
    {k : RecordKey} {r : MountRecord} (hm : w.Made e m d)
    (hr : w.state.get k = some r ∨ w.disk.get k = some r)
    (hi : (m.readIdentity unique).matches r.identity = true) :
    k = d.key ∧ r.targetLocation = d.target := by
  obtain ⟨e',m',d',now,hm',rfl⟩ := h.made k r hr
  obtain ⟨-,hd⟩ := h.distinct _ _ _ _ _ _ hm hm' hi
  have hk : d'.key = k := by
    rcases hr with hr | hr
    · exact State.key_of_get hr
    · exact State.key_of_get hr
  exact ⟨by rw [← hk,hd],by rw [hd]; rfl⟩

/-- Nothing is attached and the records of the attached mounts stay. -/
theorem of_shrink (h : Owned dir unique w) (hmade : ∀ e m d, v.Made e m d → w.Made e m d)
    (hmade' : ∀ e m d, w.Made e m d → v.Made e m d) (ht : Shrinks w.table v.table)
    (hs : ∀ k r, v.state.get k = some r → w.state.get k = some r)
    (hd : ∀ k r, v.disk.get k = some r → w.state.get k = some r ∨ w.disk.get k = some r)
    (hk : ∀ e m d, w.Made e m d → m ∈ v.table e → v.state.get d.key = w.state.get d.key ∧
      (v.disk.get d.key = w.disk.get d.key ∨ v.disk.get d.key = w.state.get d.key)) :
    Owned dir unique v where
  located := fun e m d hm => h.located e m d (hmade e m d hm)
  distinct := fun e m d e' m' d' hm hm' =>
    h.distinct e m d e' m' d' (hmade e m d hm) (hmade e' m' d' hm')
  alone := by
    intro e m d hm ht'
    have hw := h.alone e m d (hmade e m d hm) ((ht e).subset ht')
    have hsub := ht e
    rw [hw] at hsub
    exact (mem_of_sublist_singleton hsub ht').1
  made := by
    intro k r hr
    have hr' : w.state.get k = some r ∨ w.disk.get k = some r := by
      rcases hr with hr | hr
      · exact .inl (hs k r hr)
      · exact hd k r hr
    obtain ⟨e,m,d,now,hm,rfl⟩ := h.made k r hr'
    exact ⟨e,m,d,now,hmade' e m d hm,rfl⟩
  recorded := by
    intro e m d hm ht'
    have hm := hmade e m d hm
    obtain ⟨now,h₁,h₂⟩ := h.recorded e m d hm ((ht e).subset ht')
    obtain ⟨hs',hd'⟩ := hk e m d hm ht'
    refine ⟨now,hs'.trans h₁,?_⟩
    rcases hd' with hd' | hd'
    · exact hd'.trans h₂
    · exact hd'.trans h₁

/-- One mount was made on a directory where nothing else is attached; memory and file
hold the records of all attached mounts. -/
theorem of_mount (h : Owned dir unique w) {m₀ : Mount} {d₀ : DesiredMount}
    (hmade : ∀ e m d, v.Made e m d ↔ w.Made e m d ∨ (e = dir d₀.target ∧ m = m₀ ∧ d = d₀))
    (hfresh : ∀ e m d, w.Made e m d →
      (m₀.readIdentity unique).matches (m.readIdentity unique) = false)
    (ht : ∀ e, e ≠ dir d₀.target → (v.table e).Sublist (w.table e))
    (ht₀ : (v.table (dir d₀.target)).Sublist [m₀])
    (hr : ∀ k r, v.state.get k = some r ∨ v.disk.get k = some r →
      w.state.get k = some r ∨ w.disk.get k = some r ∨
        ∃ now, r = newRecord d₀ (m₀.readIdentity unique) now)
    (hk : ∀ e m d, w.Made e m d → m ∈ v.table e → m ∈ w.table e →
      v.state.get d.key = w.state.get d.key ∧
        (v.disk.get d.key = w.disk.get d.key ∨ v.disk.get d.key = w.state.get d.key))
    (hnew : m₀ ∈ v.table (dir d₀.target) → ∃ now,
      v.state.get d₀.key = some (newRecord d₀ (m₀.readIdentity unique) now) ∧
        v.disk.get d₀.key = some (newRecord d₀ (m₀.readIdentity unique) now)) :
    Owned dir unique v := by
  have hold : ∀ e m d, w.Made e m d → m ∈ v.table e → e ≠ dir d₀.target ∧ m ∈ w.table e := by
    intro e m d hm hv
    by_cases he : e = dir d₀.target
    · subst he
      have hmm := (mem_of_sublist_singleton ht₀ hv).2
      have hf := hfresh _ m d hm
      rw [hmm,MountIdentity.matches_self] at hf
      cases hf
    · exact ⟨he,(ht e he).subset hv⟩
  refine ⟨?_,?_,?_,?_,?_⟩
  · intro e m d hm
    rcases (hmade e m d).mp hm with hm | ⟨rfl,-,rfl⟩
    · exact h.located e m d hm
    · rfl
  · intro e m d e' m' d' hm hm' hi
    rcases (hmade e m d).mp hm with hm | ⟨-,rfl,rfl⟩
    · rcases (hmade e' m' d').mp hm' with hm' | ⟨-,rfl,rfl⟩
      · exact h.distinct e m d e' m' d' hm hm' hi
      · rw [MountIdentity.matches_comm,hfresh e m d hm] at hi
        cases hi
    · rcases (hmade e' m' d').mp hm' with hm' | ⟨-,rfl,rfl⟩
      · rw [hfresh e' m' d' hm'] at hi
        cases hi
      · exact ⟨rfl,rfl⟩
  · intro e m d hm hv
    rcases (hmade e m d).mp hm with hm | ⟨rfl,rfl,-⟩
    · obtain ⟨he,hw⟩ := hold e m d hm hv
      have hsub := ht e he
      rw [h.alone e m d hm hw] at hsub
      exact (mem_of_sublist_singleton hsub hv).1
    · exact (mem_of_sublist_singleton ht₀ hv).1
  · intro k r hkr
    rcases hr k r hkr with hw | hw | ⟨now,rfl⟩
    · obtain ⟨e,m,d,now,hm,rfl⟩ := h.made k r (.inl hw)
      exact ⟨e,m,d,now,(hmade e m d).mpr (.inl hm),rfl⟩
    · obtain ⟨e,m,d,now,hm,rfl⟩ := h.made k r (.inr hw)
      exact ⟨e,m,d,now,(hmade e m d).mpr (.inl hm),rfl⟩
    · exact ⟨_,_,_,now,(hmade _ _ _).mpr (.inr ⟨rfl,rfl,rfl⟩),rfl⟩
  · intro e m d hm hv
    rcases (hmade e m d).mp hm with hm | ⟨rfl,rfl,rfl⟩
    · have hw := (hold e m d hm hv).2
      obtain ⟨now,h₁,h₂⟩ := h.recorded e m d hm hw
      obtain ⟨hs,hd⟩ := hk e m d hm hv hw
      refine ⟨now,hs.trans h₁,?_⟩
      rcases hd with hd | hd
      · exact hd.trans h₂
      · exact hd.trans h₁
    · exact hnew hv

end Owned

/-! ### One step -/

section
variable [DecidableEq D] {dir : Location → D} {unique : Bool} {w v : World D} {env : StepEnv D}
  {r : Except String Unit}

omit [DecidableEq D] in
theorem drifts_shrinks (h : ∀ op t, Shrinks t (env.before op t)) : Drifts Shrinks env where
  refl := Shrinks.refl
  trans := Shrinks.trans
  before := h

/-- What is assumed of a step on the target `l`: other processes only detach, the path
leads to the target's directory, and only the failures that the run allows occur. -/
structure StepOk (dir : Location → D) (l : Location) (env : StepEnv D) : Prop where
  shrinks : ∀ op t, Shrinks t (env.before op t)
  resolves : ∀ op, env.dir op = dir l
  readBack : env.fault .readIdentity = none
  rollbackRoot : env.fault .rollbackRoot = none
  rollback : env.fault .rollback = none
  synced : env.fault .syncDir = none

/-- A new mount stands alone on its directory; elsewhere mounts only went away. -/
theorem Attaches.tables {d : DesiredMount} {t : Table D} (h : Attaches env Shrinks d w t) :
    (∀ e, e ≠ env.dir .ensureDirs → (t e).Sublist (w.table e)) ∧
      (t (env.dir .ensureDirs)).Sublist [env.newMount d] := by
  obtain ⟨t₀,t₁,h₀,hempty,h₁,h₂⟩ := h
  constructor
  · intro e he
    have hs := h₂ e
    rw [Table.attach_of_ne he] at hs
    exact hs.trans ((h₁ e).trans (h₀ e))
  · have hnil : t₁ (env.dir .ensureDirs) = [] := by
      have hs := h₁ (env.dir .ensureDirs)
      rw [hempty] at hs
      exact List.sublist_nil.mp hs
    have hs := h₂ (env.dir .ensureDirs)
    rwa [Table.attach_same,hnil] at hs

omit [DecidableEq D] in
/-- The history gains attachments only by mounting. -/
theorem made_append_iff {w : World D} {events : List (Event D)} {e : D} {m : Mount}
    {d : DesiredMount} : Event.attached e m d ∈ w.trace ++ events ↔
      w.Made e m d ∨ Event.attached e m d ∈ events := by
  rw [List.mem_append]
  rfl

/-- What a mount step needs: its mount is fresh, and the record it replaces describes
nothing that is attached elsewhere. -/
structure MountReady (dir : Location → D) (unique : Bool) (env : StepEnv D) (d : DesiredMount)
    (w : World D) : Prop where
  fresh : ∀ e m d', w.Made e m d' →
    ((env.newMount d).readIdentity unique).matches (m.readIdentity unique) = false
  previous : ∀ e m d', w.Made e m d' → m ∈ w.table e → d'.key = d.key → e = dir d.target

/-- What a mount step leaves behind, whether it succeeds or fails. -/
structure AfterMount (dir : Location → D) (unique : Bool) (env : StepEnv D) (d : DesiredMount)
    (w v : World D) : Prop where
  owned : Owned dir unique v
  madeBy : ∀ e m d', v.Made e m d' →
    w.Made e m d' ∨ (e = dir d.target ∧ m = env.newMount d ∧ d' = d)
  kept : ∀ e m d', w.Made e m d' → v.Made e m d' ∧ (m ∈ v.table e → m ∈ w.table e)
  others : ∀ k, k ≠ d.key → v.state.get k = w.state.get k

theorem tryMount_owned {d : DesiredMount} (hok : StepOk dir d.target env)
    (hready : MountReady dir unique env d w) (hw : Owned dir unique w)
    (h : (tryMount env unique d).run w = (r,v)) :
    AfterMount dir unique env d w v := by
  have hdir : env.dir .ensureDirs = dir d.target := hok.resolves _
  -- an attached mount of before is not the new one
  have hold : ∀ {t : Table D}, (∀ e, e ≠ dir d.target → (t e).Sublist (w.table e)) →
      (t (dir d.target)).Sublist [env.newMount d] → ∀ e m d', w.Made e m d' → m ∈ t e →
        e ≠ dir d.target ∧ m ∈ w.table e := by
    intro t hne heq e m d' hm ht
    by_cases he : e = dir d.target
    · subst he
      have hmm := (mem_of_sublist_singleton heq ht).2
      have hf := hready.fresh _ m d' hm
      rw [hmm,MountIdentity.matches_self] at hf
      cases hf
    · exact ⟨he,(hne e he).subset ht⟩
  cases tryMount_run (drifts_shrinks hok.shrinks) h with
  | notAttached e t ht =>
    refine ⟨?_,fun e m d' hm => .inl hm,fun e m d' hm => ⟨hm,fun hv => (ht e).subset hv⟩,
      fun k _ => rfl⟩
    exact hw.of_shrink (fun _ _ _ h => h) (fun _ _ _ h => h) ht (fun _ _ h => h)
      (fun _ _ h => .inr h) fun _ _ _ _ _ => ⟨rfl,.inl rfl⟩
  | unread e e' t ht hf =>
    rw [hok.readBack] at hf
    cases hf
  | stuck e e' t ht disk hd hf =>
    rw [hok.rollbackRoot] at hf
    cases hf
  | recorded t ht =>
    obtain ⟨hne,heq⟩ := ht.tables
    rw [hdir] at hne heq
    have hmade : ∀ e m d', Event.attached e m d' ∈ w.trace ++ madeEvents env unique d ↔
        w.Made e m d' ∨ (e = dir d.target ∧ m = env.newMount d ∧ d' = d) := by
      intro e m d'
      rw [made_append_iff]
      simp [madeEvents,hdir]
    have hkey : ∀ e m d', w.Made e m d' → m ∈ t e → d'.key ≠ d.key := by
      intro e m d' hm hv hk
      obtain ⟨he,ht'⟩ := hold hne heq e m d' hm hv
      exact he (hready.previous e m d' hm ht' hk)
    have hget : ∀ k, k ≠ d.key → (w.state.insert (env.record unique d)).1.get k = w.state.get k := by
      intro k hk
      rw [State.get_insert,if_neg]
      exact fun h => hk h.symm
    have hself : (w.state.insert (env.record unique d)).1.get d.key = some (env.record unique d) := by
      rw [State.get_insert,if_pos (record_key env unique d)]
    refine ⟨?_,fun e m d' hm => (hmade e m d').mp hm,
      fun e m d' hm => ⟨(hmade e m d').mpr (.inl hm),fun hv => (hold hne heq e m d' hm hv).2⟩,
      hget⟩
    refine hw.of_mount hmade hready.fresh hne heq ?_ ?_ fun _ => ⟨env.now,hself,hself⟩
    · intro k r' hr'
      have hins : (w.state.insert (env.record unique d)).1.get k = some r' := by
        rcases hr' with h | h <;> exact h
      by_cases hk : k = d.key
      · subst hk
        rw [hself] at hins
        exact .inr (.inr ⟨env.now,(Option.some.inj hins).symm⟩)
      · rw [hget k hk] at hins
        exact .inl hins
    · intro e m d' hm hv _
      have hk := hget d'.key (hkey e m d' hm hv)
      exact ⟨hk,.inr hk⟩
  | rolledBack e t ht disk hd r' v hu =>
    obtain ⟨hne,heq⟩ := ht.tables
    rw [hdir] at hne heq
    have hdisk : disk = w.disk := by
      rcases hd with hd | ⟨e',he'⟩
      · exact hd
      · rw [hok.synced] at he'
        cases he'
    subst hdisk
    have hroll : env.dir .rollback = dir d.target := hok.resolves _
    -- whatever the rollback does, the new mount is gone and nothing else is touched
    have key : ∀ (t' : Table D) (events : List (Event D)),
        (∀ e, e ≠ dir d.target → (t' e).Sublist (t e)) → t' (dir d.target) = [] →
        (∀ e m d', Event.attached e m d' ∉ events) →
        v = {w with table := t',disk := w.disk,trace := (w.trace ++ madeEvents env unique d) ++ events} →
        AfterMount dir unique env d w v := by
      intro t' events hne' hnil hev hv
      subst hv
      have hne'' : ∀ e, e ≠ dir d.target → (t' e).Sublist (w.table e) :=
        fun e he => (hne' e he).trans (hne e he)
      have heq' : (t' (dir d.target)).Sublist [env.newMount d] := by
        rw [hnil]
        exact List.nil_sublist _
      have hmade : ∀ e m d', Event.attached e m d' ∈
            (w.trace ++ madeEvents env unique d) ++ events ↔
          w.Made e m d' ∨ (e = dir d.target ∧ m = env.newMount d ∧ d' = d) := by
        intro e m d'
        rw [List.append_assoc,made_append_iff]
        simp [madeEvents,hdir,hev]
      refine ⟨?_,fun e m d' hm => (hmade e m d').mp hm,
        fun e m d' hm => ⟨(hmade e m d').mpr (.inl hm),fun hv => (hold hne'' heq' e m d' hm hv).2⟩,
        fun _ _ => rfl⟩
      refine hw.of_mount hmade hready.fresh hne'' heq' ?_ (fun _ _ _ _ _ _ => ⟨rfl,.inl rfl⟩) ?_
      · rintro k r' (hr' | hr')
        · exact .inl hr'
        · exact .inr (.inl hr')
      · intro hm
        have hm : env.newMount d ∈ t' (dir d.target) := hm
        rw [hnil] at hm
        cases hm
    cases hu with
    | failed e' t' ht' hf =>
      rw [hok.rollback] at hf
      cases hf
    | refused e' t' ht' hv =>
      refine key t' [] (fun e _ => ht' e) ?_ (by simp) (by simp)
      rw [hroll] at hv
      -- a mount still there would be the new one and pass the check
      rcases List.sublist_singleton.mp ((ht' (dir d.target)).trans heq) with hnil | hone
      · exact hnil
      · simp [Table.openDir,hone,Fd.verified] at hv
    | detached m t' ht' htop hv =>
      refine key (t'.detach (dir d.target)) [.umount d.target (dir d.target) m (t' (dir d.target))]
        ?_ ?_ (by simp) (by rw [hroll])
      · intro e he
        rw [Table.detach_of_ne he]
        exact ht' e
      · rw [Table.detach_same]
        rcases List.sublist_singleton.mp ((ht' (dir d.target)).trans heq) with hnil | hone
        · rw [hnil]; rfl
        · rw [hone]; rfl

/-- What a removal step leaves behind, whether it succeeds or fails. -/
structure AfterRemoval (dir : Location → D) (unique : Bool) (record : MountRecord)
    (r : Except String Unit) (w v : World D) : Prop where
  owned : Owned dir unique v
  made : ∀ e m d, v.Made e m d ↔ w.Made e m d
  shrinks : Shrinks w.table v.table
  state : ∀ k r', v.state.get k = some r' → w.state.get k = some r'
  gone : r = .ok () → Gone unique v record

/-- What a removal step needs: the record was made for a mount, and memory holds it
under its key, if anything. -/
structure RemovalReady (unique : Bool) (record : MountRecord) (w : World D) : Prop where
  made : ∃ e m d now, w.Made e m d ∧ record = newRecord d (m.readIdentity unique) now
  held : ∀ r', w.state.get record.key = some r' → r' = record

omit [DecidableEq D] in
/-- A mount that a record describes is its member's, on its directory. -/
theorem Owned.described (hw : Owned dir unique w) {record : MountRecord}
    (hr : ∃ e m d now, w.Made e m d ∧ record = newRecord d (m.readIdentity unique) now)
    {e : D} {m : Mount} {d : DesiredMount} (hm : w.Made e m d)
    (hi : (m.readIdentity unique).matches record.identity = true) :
    e = dir record.targetLocation := by
  obtain ⟨e',m',d',now,hm',rfl⟩ := hr
  obtain ⟨-,rfl⟩ := hw.distinct _ _ _ _ _ _ hm hm' hi
  exact hw.located e m d hm

omit [DecidableEq D] in
/-- An attached mount of the record's member is one the record describes. -/
theorem RemovalReady.describes {record : MountRecord} (h : RemovalReady unique record w)
    (hw : Owned dir unique w) {e : D} {m : Mount} {d : DesiredMount} (hm : w.Made e m d)
    (ht : m ∈ w.table e) (hk : d.key = record.key) :
    (m.readIdentity unique).matches record.identity = true := by
  obtain ⟨now,hs,-⟩ := hw.recorded e m d hm ht
  rw [hk] at hs
  rw [← h.held _ hs]
  exact MountIdentity.matches_self _

omit [DecidableEq D] in
theorem Persisted.disk {record : MountRecord} {disk : State} (hsync : env.fault .syncDir = none)
    (h : Persisted env {w with state := w.state.remove record.key} r disk) :
    disk = w.state.remove record.key ∨ disk = w.disk := by
  cases h with
  | saved => exact .inl rfl
  | unchanged e => exact .inr rfl
  | unsynced e e' hf => rw [hsync] at hf; cases hf

omit [DecidableEq D] in
/-- Taking a record out of memory, where no attached mount of its member remains. -/
theorem Owned.remove_record (hw : Owned dir unique w) {record : MountRecord} {t : Table D}
    {disk : State} {trace : List (Event D)} (ht : Shrinks w.table t)
    (hd : disk = w.state.remove record.key ∨ disk = w.disk)
    (hmade : ∀ e m d, Event.attached e m d ∈ trace ↔ w.Made e m d)
    (hkey : ∀ e m d, w.Made e m d → m ∈ t e → d.key ≠ record.key) :
    Owned dir unique ⟨t,w.state.remove record.key,disk,trace⟩ := by
  have hsome : ∀ k r', (w.state.remove record.key).get k = some r' → w.state.get k = some r' := by
    intro k r' h
    rw [State.get_remove] at h
    split_ifs at h
    exact h
  refine hw.of_shrink (fun e m d h => (hmade e m d).mp h) (fun e m d h => (hmade e m d).mpr h) ht
    hsome ?_ ?_
  · intro k r' h
    rcases hd with rfl | rfl
    · exact .inl (hsome k r' h)
    · exact .inr h
  · intro e m d hm hv
    have hget : (w.state.remove record.key).get d.key = w.state.get d.key := by
      rw [State.get_remove,if_neg]
      exact fun h => hkey e m d hm hv h.symm
    refine ⟨hget,?_⟩
    rcases hd with rfl | rfl
    · exact .inr hget
    · exact .inl rfl

theorem tryUnmount_owned {record : MountRecord} (hok : StepOk dir record.targetLocation env)
    (hready : RemovalReady unique record w) (hw : Owned dir unique w)
    (h : (tryUnmount env unique record).run w = (r,v)) :
    AfterRemoval dir unique record r w v := by
  cases tryUnmount_run (drifts_shrinks hok.shrinks) h with
  | notUnmounted e t ht =>
    refine ⟨?_,fun _ _ _ => Iff.rfl,ht,fun _ _ h => h,fun h => by cases h⟩
    exact hw.of_shrink (fun _ _ _ h => h) (fun _ _ _ h => h) ht (fun _ _ h => h)
      (fun _ _ h => .inr h) fun _ _ _ _ _ => ⟨rfl,.inl rfl⟩
  | unmounted r m t t' disk ht hm hv ht' hd =>
    have hdir : env.dir .unmount = dir record.targetLocation := hok.resolves _
    rw [hdir] at ht' ⊢
    have hshrinks : Shrinks w.table t' :=
      ht.trans (Shrinks.trans (fun e => t.detach_sublist _ e) ht')
    -- the directory held the described mount alone, and that one was detached
    have hgone : ∀ e m d, w.Made e m d →
        (m.readIdentity unique).matches record.identity = true → m ∉ t' e := by
      intro e m d hm hi hv
      have he := hw.described hready.made hm hi
      have halone := hw.alone e m d hm ((hshrinks e).subset hv)
      subst he
      have hsub := ht (dir record.targetLocation)
      rw [halone] at hsub
      have hnil : (t (dir record.targetLocation)).tail = [] := by
        rcases List.sublist_singleton.mp hsub with h0 | h1
        · rw [h0]; rfl
        · rw [h1]; rfl
      have hs := ht' (dir record.targetLocation)
      rw [Table.detach_same,hnil] at hs
      have hempty := List.sublist_nil.mp hs
      rw [hempty] at hv
      cases hv
    have hmade : ∀ e x d, Event.attached e x d ∈ w.trace ++
        [.umount record.targetLocation (dir record.targetLocation) m
          (t (dir record.targetLocation))] ↔ w.Made e x d := by
      intro e x d
      rw [made_append_iff]
      simp
    refine ⟨hw.remove_record hshrinks (hd.disk hok.synced) hmade ?_,hmade,hshrinks,?_,?_⟩
    · intro e m d hm hv hk
      exact hgone e m d hm (hready.describes hw hm ((hshrinks e).subset hv) hk) hv
    · intro k r' h
      have h : (w.state.remove record.key).get k = some r' := h
      rw [State.get_remove] at h
      split_ifs at h
      exact h
    · intro _ e m d hm hi
      exact hgone e m d ((hmade e m d).mp hm) hi

omit [DecidableEq D] in
theorem dropRecord_owned {record : MountRecord} {l : Location} (hok : StepOk dir l env)
    (hready : RemovalReady unique record w) (hgone : Gone unique w record)
    (hw : Owned dir unique w) (h : (dropRecord env record).run w = (r,v)) :
    AfterRemoval dir unique record r w v := by
  obtain ⟨t,disk,ht,hd,rfl⟩ := dropRecord_run (drifts_shrinks hok.shrinks) h
  refine ⟨hw.remove_record ht (hd.disk hok.synced) (fun _ _ _ => Iff.rfl) ?_,
    fun _ _ _ => Iff.rfl,ht,?_,?_⟩
  · intro e m d hm hv hk
    have hw' := (ht e).subset hv
    exact hgone e m d hm (hready.describes hw hm hw' hk) hw'
  · intro k r' h
    have h : (w.state.remove record.key).get k = some r' := h
    rw [State.get_remove] at h
    split_ifs at h
    exact h
  · intro _ e m d hm hi hv
    exact hgone e m d hm hi ((ht e).subset hv)

/-! ### One pass -/

/-- What is assumed of a pass: each step's environment is as allowed, and the
identities of new mounts are not reused. -/
structure PassOk (dir : Location → D) (unique : Bool) (input : PlanInput) (env : ℕ → StepEnv D)
    (w : World D) : Prop where
  steps : ∀ i step, (plan input).steps[i]? = some step → StepOk dir step.action.target (env i)
  fresh : ∀ i d deps, (plan input).steps[i]? = some ⟨.mount d,deps⟩ → ∀ e m d', w.Made e m d' →
    (((env i).newMount d).readIdentity unique).matches (m.readIdentity unique) = false
  distinct : ∀ i j d deps d' deps', i ≠ j → (plan input).steps[i]? = some ⟨.mount d,deps⟩ →
    (plan input).steps[j]? = some ⟨.mount d',deps'⟩ →
    (((env i).newMount d).readIdentity unique).matches
      (((env j).newMount d').readIdentity unique) = false

/-- The invariant of a pass that planned `input` in the world `w₀`, after `i` steps. -/
structure PassInv (dir : Location → D) (unique : Bool) (input : PlanInput) (env : ℕ → StepEnv D)
    (w₀ : World D) (i : ℕ) (results : List StepResult) (w : World D) : Prop where
  owned : Owned dir unique w
  origins : ∀ e m d, w.Made e m d → w₀.Made e m d ∨
    ∃ j < i, ∃ deps, (plan input).steps[j]? = some ⟨.mount d,deps⟩ ∧ m = (env j).newMount d
  older : ∀ e m d, w₀.Made e m d → w.Made e m d
  memory : ∀ k r, w.state.get k = some r → input.state.get k = some r ∨
    ∃ j < i, ∃ d deps, (plan input).steps[j]? = some ⟨.mount d,deps⟩ ∧ d.key = k
  unseen : ∀ record ∈ input.state.records, (input.target record.targetLocation).shows record = false →
    (∀ reason, input.target record.targetLocation ≠ .unavailable reason) → Gone unique w record
  removed : ∀ (j : ℕ) step record, (plan input).steps[j]? = some step →
    step.action.Removes record → results[j]? = some .done → Gone unique w record

namespace PassInv

variable {input : PlanInput} {env : ℕ → StepEnv D} {w₀ : World D} {i : ℕ}
  {results : List StepResult}

omit [DecidableEq D]

/-- Every record of the input was made for a mount. -/
theorem record_made (h : PassInv dir unique input env w₀ i results w)
    (hmade : ∀ record ∈ input.state.records, ∃ e m d now, w₀.Made e m d ∧
      record = newRecord d (m.readIdentity unique) now) {record : MountRecord}
    (hr : record ∈ input.state.records) : ∃ e m d now, w.Made e m d ∧
      record = newRecord d (m.readIdentity unique) now := by
  obtain ⟨e,m,d,now,hm,rfl⟩ := hmade record hr
  exact ⟨e,m,d,now,h.older e m d hm,rfl⟩

/-- Results only grow by one. -/
theorem result_cases {results : List StepResult} {x : StepResult} {j : ℕ}
    (hj : (results ++ [x])[j]? = some .done) :
    results[j]? = some .done ∨ (j = results.length ∧ x = .done) := by
  by_cases hlt : j < results.length
  · rw [List.getElem?_append_left hlt] at hj
    exact .inl hj
  · rw [List.getElem?_append_right (by omega)] at hj
    by_cases h0 : j-results.length = 0
    · rw [h0] at hj
      exact .inr ⟨by omega,by simpa using hj⟩
    · rw [List.getElem?_eq_none (by simp; omega)] at hj
      cases hj

theorem skip (h : PassInv dir unique input env w₀ i results w) :
    PassInv dir unique input env w₀ (i+1) (results ++ [.skipped]) w where
  owned := h.owned
  origins := by
    intro e m d hm
    rcases h.origins e m d hm with hm | ⟨j,hj,hh⟩
    · exact .inl hm
    · exact .inr ⟨j,by omega,hh⟩
  older := h.older
  memory := by
    intro k r hr
    rcases h.memory k r hr with hr | ⟨j,hj,hh⟩
    · exact .inl hr
    · exact .inr ⟨j,by omega,hh⟩
  unseen := h.unseen
  removed := by
    intro j step record hs ha hj
    rcases result_cases hj with hj | ⟨-,hx⟩
    · exact h.removed j step record hs ha hj
    · cases hx

/-- A removal keeps the invariant. -/
theorem removal (h : PassInv dir unique input env w₀ i results w) (hlen : results.length = i)
    {step : Step} {record : MountRecord} (hs : (plan input).steps[i]? = some step)
    (ha : step.action.Removes record) (hv : AfterRemoval dir unique record r w v) :
    PassInv dir unique input env w₀ (i+1) (results ++ [intoResult r]) v := by
  have hgone : ∀ record, Gone unique w record → Gone unique v record := by
    intro record hg e m d hm hi hvt
    exact hg e m d ((hv.made e m d).mp hm) hi ((hv.shrinks e).subset hvt)
  refine ⟨hv.owned,?_,fun e m d hm => (hv.made e m d).mpr (h.older e m d hm),?_,
    fun record hr h₁ h₂ => hgone record (h.unseen record hr h₁ h₂),?_⟩
  · intro e m d hm
    rcases h.origins e m d ((hv.made e m d).mp hm) with hm | ⟨j,hj,hh⟩
    · exact .inl hm
    · exact .inr ⟨j,by omega,hh⟩
  · intro k r' hr'
    rcases h.memory k r' (hv.state k r' hr') with hr' | ⟨j,hj,hh⟩
    · exact .inl hr'
    · exact .inr ⟨j,by omega,hh⟩
  · intro j step' record' hs' ha' hj
    rcases result_cases hj with hj | ⟨rfl,hx⟩
    · exact hgone record' (h.removed j step' record' hs' ha' hj)
    · rw [hlen,hs] at hs'
      cases hs'
      have hrr : record = record' := by
        rcases ha with ⟨_,he⟩ | ⟨_,he⟩ <;> rcases ha' with ⟨_,he'⟩ | ⟨_,he'⟩ <;>
          rw [he] at he' <;> cases he' <;> rfl
      rw [← hrr]
      apply hv.gone
      cases r with
      | ok _ => rfl
      | error e => cases hx

/-- A mount keeps the invariant. -/
theorem mount (h : PassInv dir unique input env w₀ i results w)
    (hmade : ∀ record ∈ input.state.records, ∃ e m d now, w₀.Made e m d ∧
      record = newRecord d (m.readIdentity unique) now)
    {d : DesiredMount} {deps : List ℕ} (hs : (plan input).steps[i]? = some ⟨.mount d,deps⟩)
    (hlen : results.length = i) (hready : MountReady dir unique (env i) d w)
    (hv : AfterMount dir unique (env i) d w v) :
    PassInv dir unique input env w₀ (i+1) (results ++ [intoResult r]) v := by
  -- the new mount is none that a record of the input describes
  have hgone : ∀ record ∈ input.state.records, Gone unique w record → Gone unique v record := by
    intro record hr hg e m d' hm hi hvt
    rcases hv.madeBy e m d' hm with hm | ⟨-,rfl,-⟩
    · exact hg e m d' hm hi ((hv.kept e m d' hm).2 hvt)
    · obtain ⟨e',m',d'',now,hm',rfl⟩ := h.record_made hmade hr
      have hf := hready.fresh e' m' d'' hm'
      have hi : (((env i).newMount d).readIdentity unique).matches (m'.readIdentity unique) = true := hi
      rw [hf] at hi
      cases hi
  refine ⟨hv.owned,?_,fun e m d' hm => (hv.kept e m d' (h.older e m d' hm)).1,?_,
    fun record hr h₁ h₂ => hgone record hr (h.unseen record hr h₁ h₂),?_⟩
  · intro e m d' hm
    rcases hv.madeBy e m d' hm with hm | ⟨-,rfl,rfl⟩
    · rcases h.origins e m d' hm with hm | ⟨j,hj,hh⟩
      · exact .inl hm
      · exact .inr ⟨j,by omega,hh⟩
    · exact .inr ⟨i,by omega,deps,hs,rfl⟩
  · intro k r' hr'
    by_cases hk : k = d.key
    · exact .inr ⟨i,by omega,d,deps,hs,hk.symm⟩
    · rw [hv.others k hk] at hr'
      rcases h.memory k r' hr' with hr' | ⟨j,hj,hh⟩
      · exact .inl hr'
      · exact .inr ⟨j,by omega,hh⟩
  · intro j step record hs' ha hj
    rcases result_cases hj with hj | ⟨rfl,-⟩
    · have hmem : record ∈ input.state.records := by
        apply plan_removes_record _ ha
        exact List.mem_map_of_mem (List.mem_of_getElem? hs')
      exact hgone record hmem (h.removed j step record hs' ha hj)
    · rw [hlen,hs] at hs'
      cases hs'
      rcases ha with ⟨_,he⟩ | ⟨_,he⟩ <;> cases he

/-- A mount step finds no attached mount of its member on another directory: the
member's record was removed by a step it waited for, or names the same target. -/
theorem mountReady (h : PassInv dir unique input env w₀ i results w) (hok : PassOk dir unique input env w₀)
    {d : DesiredMount} {deps : List ℕ} (hs : (plan input).steps[i]? = some ⟨.mount d,deps⟩)
    (hdeps : ∀ j ∈ deps, results[j]? = some .done) : MountReady dir unique (env i) d w where
  fresh := by
    intro e m d' hm
    rcases h.origins e m d' hm with hm | ⟨j,hj,deps',hs',rfl⟩
    · exact hok.fresh i d deps hs e m d' hm
    · exact hok.distinct i j d deps d' deps' (by omega) hs hs'
  previous := by
    intro e m d' hm ht hk
    obtain ⟨now,hget,-⟩ := h.owned.recorded e m d' hm ht
    rcases h.memory _ _ hget with hin | ⟨j,hj,d'',deps',hs',hk'⟩
    · rw [hk] at hin
      rcases plan_mount_waits hs hin with ⟨j,hj,a,js,hjs,ha⟩ | ⟨htl,-⟩
      · exact absurd ht (h.removed j ⟨a,js⟩ _ hjs ha (hdeps j hj) e m d' hm
          (MountIdentity.matches_self _))
      · have htl : d'.target = d.target := htl
        rw [← htl]
        exact h.owned.located e m d' hm
    · have hij := plan_mount_index_unique hs hs' (.inl (by rw [hk',hk]))
      omega

/-- A removal step is the first step on its record. -/
theorem removalReady (h : PassInv dir unique input env w₀ i results w)
    (hmade : ∀ record ∈ input.state.records, ∃ e m d now, w₀.Made e m d ∧
      record = newRecord d (m.readIdentity unique) now)
    {step : Step} {record : MountRecord} (hs : (plan input).steps[i]? = some step)
    (ha : step.action.Removes record) : RemovalReady unique record w := by
  have hmem : record ∈ input.state.records := by
    apply plan_removes_record _ ha
    exact List.mem_map_of_mem (List.mem_of_getElem? hs)
  refine ⟨h.record_made hmade hmem,?_⟩
  intro r' hr'
  rcases h.memory _ r' hr' with hr' | ⟨j,hj,d,deps,hs',-⟩
  · rw [State.mem_records.mp hmem] at hr'
    exact (Option.some.inj hr').symm
  · have hij := plan_removals_first hs ha hs'
    omega

end PassInv

/-- A pass keeps the invariant. -/
theorem pass_owned {input : PlanInput} {env : ℕ → StepEnv D} (hstate : input.state = w.state)
    (hok : PassOk dir unique input env w) (hw : Owned dir unique w)
    (hunseen : ∀ record ∈ input.state.records,
      (input.target record.targetLocation).shows record = false →
      (∀ reason, input.target record.targetLocation ≠ .unavailable reason) → Gone unique w record) :
    Owned dir unique (execute env unique (plan input) w).2 := by
  have hmade : ∀ record ∈ input.state.records, ∃ e m d now, w.Made e m d ∧
      record = newRecord d (m.readIdentity unique) now := by
    intro record hr
    rw [hstate] at hr
    exact hw.made _ record (.inl (State.mem_records.mp hr))
  have hinv : PassInv dir unique input env w (plan input).steps.length
      (execute env unique (plan input) w).1 (execute env unique (plan input) w).2 := by
    apply execute_induction (P := PassInv dir unique input env w)
    · refine ⟨hw,fun e m d hm => .inl hm,fun e m d hm => hm,fun k r hr => .inl ?_,hunseen,?_⟩
      · rw [hstate]
        exact hr
      · intro j step record _ _ hj
        cases hj
    · intro i step results w' _ _ h
      exact h.skip
    · intro i step results w' r v hs hlen h hdeps hrun
      obtain ⟨a,deps⟩ := step
      have hstep := hok.steps i _ hs
      cases a with
      | mount d =>
        have hready := h.mountReady hok hs hdeps
        exact h.mount hmade hs hlen hready (tryMount_owned hstep hready h.owned hrun)
      | unmount record reason =>
        have ha : (Action.unmount record reason).Removes record := .inl ⟨reason,rfl⟩
        have hready := h.removalReady hmade hs ha
        exact h.removal hlen hs ha (tryUnmount_owned hstep hready h.owned hrun)
      | dropRecord record reason =>
        have ha : (Action.dropRecord record reason).Removes record := .inr ⟨reason,rfl⟩
        have hready := h.removalReady hmade hs ha
        have hmem : Action.dropRecord record reason ∈ (plan input).steps.map Step.action :=
          List.mem_map_of_mem (List.mem_of_getElem? hs)
        obtain ⟨h₁,h₂⟩ := plan_drop_unseen hmem
        have hgone := h.unseen record (plan_removes_record hmem ha) h₁ h₂
        exact h.removal hlen hs ha (dropRecord_owned hstep hready hgone h.owned hrun)
  exact hinv.owned

/-! ### Runs -/

/-- Every target was inspected at some moment between the tables `t` and `t'`, or could
not be inspected. -/
def KernelObserved (dir : Location → D) (unique : Bool) (t t' : Table D) (input : PlanInput) : Prop :=
  ∀ l, (∃ reason, input.target l = .unavailable reason) ∨
    ∃ stack readable, (t' (dir l)).Sublist stack ∧ stack.Sublist (t (dir l)) ∧
      input.target l = Fd.inspect ⟨dir l,stack.head?⟩ unique readable

/-- Runs of passes from the empty state.  Membership, configuration and frozen groups are
chosen anew for each pass; between operations and between passes other processes detach
mounts. -/
inductive Run (dir : Location → D) (unique : Bool) : World D → Prop
  | start (t : Table D) : Run dir unique ⟨t,.empty,.empty,[]⟩
  | detach (w : World D) (t : Table D) (h : Run dir unique w) (ht : Shrinks w.table t) :
    Run dir unique {w with table := t}
  | pass (w : World D) (t : Table D) (input : PlanInput) (env : ℕ → StepEnv D)
    (h : Run dir unique w) (ht : Shrinks w.table t) (hstate : input.state = w.state)
    (hobserved : KernelObserved dir unique w.table t input)
    (hok : PassOk dir unique input env {w with table := t}) :
    Run dir unique (execute env unique (plan input) {w with table := t}).2

omit [DecidableEq D] in
theorem Owned.detach (hw : Owned dir unique w) {t : Table D} (ht : Shrinks w.table t) :
    Owned dir unique {w with table := t} :=
  hw.of_shrink (fun _ _ _ h => h) (fun _ _ _ h => h) ht (fun _ _ h => h) (fun _ _ h => .inr h)
    fun _ _ _ _ _ => ⟨rfl,.inl rfl⟩

omit [DecidableEq D] in
/-- A record whose target was inspected without showing its mount describes nothing
that is attached. -/
theorem KernelObserved.gone {t : Table D} {input : PlanInput} (h : KernelObserved dir unique w.table t input)
    (hw : Owned dir unique w) (ht : Shrinks w.table t) (hstate : input.state = w.state)
    {record : MountRecord} (hr : record ∈ input.state.records)
    (hs : (input.target record.targetLocation).shows record = false)
    (hu : ∀ reason, input.target record.targetLocation ≠ .unavailable reason) :
    Gone unique {w with table := t} record := by
  intro e m d hm hi hv
  rw [hstate] at hr
  have hmade := hw.made _ record (.inl (State.mem_records.mp hr))
  have he : e = dir record.targetLocation := hw.described hmade hm hi
  subst he
  rcases h record.targetLocation with ⟨reason,hun⟩ | ⟨stack,readable,h₁,h₂,hin⟩
  · exact hu reason hun
  · have hv : m ∈ t (dir record.targetLocation) := hv
    have halone := hw.alone _ m d hm ((ht _).subset hv)
    rw [halone] at h₂
    have hstack := (mem_of_sublist_singleton h₂ (h₁.subset hv)).1
    rw [hin,hstack] at hs
    simp [Fd.inspect,TargetState.shows,hi] at hs

theorem Run.owned (h : Run dir unique w) : Owned dir unique w := by
  induction h with
  | start t =>
    refine ⟨?_,?_,?_,?_,?_⟩
    · intro e m d hm; cases hm
    · intro e m d e' m' d' hm; cases hm
    · intro e m d hm; cases hm
    · intro k r hr; simp at hr
    · intro e m d hm; cases hm
  | detach w t _ ht ih => exact ih.detach ht
  | pass w t input env _ ht hstate hobserved hok ih =>
    refine pass_owned hstate hok (ih.detach ht) ?_
    intro record hr h₁ h₂
    exact hobserved.gone ih ht hstate hr h₁ h₂

/-- Exactly the record `r` of the state describes the mount. -/
def DescribedBy (unique : Bool) (s : State) (m : Mount) (r : MountRecord) : Prop :=
  r ∈ s.records ∧ (m.readIdentity unique).matches r.identity = true ∧
    ∀ r' ∈ s.records, (m.readIdentity unique).matches r'.identity = true → r' = r

/-- In every run, a mount that Byssus made and that is still attached is described by
exactly one record in memory and on disk, which has its target, source and attributes. -/
theorem attached_mount_recorded (h : Run dir unique w) {e : D} {m : Mount} {d : DesiredMount}
    (hm : w.Made e m d) (ht : m ∈ w.table e) :
    ∃ r, DescribedBy unique w.state m r ∧ DescribedBy unique w.disk m r ∧
      dir r.targetLocation = e ∧ r.targetLocation = d.target ∧ r.sourceLocation = d.source ∧
      r.identity.root = m.identity.root ∧ r.attrs = d.attrs := by
  have hw := h.owned
  obtain ⟨now,hs,hd⟩ := hw.recorded e m d hm ht
  have hself : (m.readIdentity unique).matches
      (newRecord d (m.readIdentity unique) now).identity = true := MountIdentity.matches_self _
  have honly : ∀ s : State, (∀ k r, s.get k = some r → w.state.get k = some r ∨ w.disk.get k = some r) →
      s.get d.key = some (newRecord d (m.readIdentity unique) now) →
      DescribedBy unique s m (newRecord d (m.readIdentity unique) now) := by
    intro s hsub hget
    refine ⟨State.mem_records_of_get hget,hself,?_⟩
    intro r' hr' hi
    have hr' := State.mem_records.mp hr'
    have hk := (hw.record_unique hm (hsub _ _ hr') hi).1
    rw [hk,hget] at hr'
    exact (Option.some.inj hr').symm
  exact ⟨newRecord d (m.readIdentity unique) now,honly w.state (fun _ _ h => .inl h) hs,
    honly w.disk (fun _ _ h => .inr h) hd,(hw.located e m d hm).symm,rfl,rfl,rfl,rfl⟩

end

/-! Two members whose views are empty.  In the first pass the mount of `a` cannot be recorded and is
taken back; then another process detaches the mount of `b`; the second pass mounts both. -/
namespace OwnershipRun

open Sample

def input (s : State) : PlanInput where
  desired := [desired group a "x",desired group b "y"]
  state := s
  frozenGroups := ∅
  observations := observations [(⟨group,a⟩,.resolved (dir 42)),(⟨group,b⟩,.resolved (dir 43))]
    [(view "x",.notMounted),(view "y",.notMounted)]

/-- Every path is its own directory, the mounts have the identifiers from `id` on, and the first
step may fail. -/
def env (id : ℕ) (fault : Op → Option String) (i : ℕ) : StepEnv Location where
  before := fun _ t => t
  fault := if i = 0 then fault else fun _ => none
  dir := fun _ => if i = 0 then view "x" else view "y"
  source := if i = 0 then dir 42 else dir 43
  mntId := id+i
  mntIdUnique := some (id+i)
  inherited := ⟨false,false,false,false,false⟩
  now := 0

def unsaved (op : Op) : Option String := if op = .saveFile then some "disk quota exceeded" else none

def start : World Location := ⟨fun _ => [],.empty,.empty,[]⟩
def first : World Location := (execute (env 7 unsaved) true (plan (input .empty)) start).2
def detached : World Location := {first with table := fun _ => []}
def final : World Location :=
  (execute (env 9 fun _ => none) true (plan (input detached.state)) detached).2

def steps : List Step :=
  [⟨.mount (desired group a "x"),[]⟩,⟨.mount (desired group b "y"),[]⟩]

theorem steps_cases {i : ℕ} {step : Step} (h : steps[i]? = some step) :
    (i = 0 ∧ step.action = .mount (desired group a "x")) ∨
      (i = 1 ∧ step.action = .mount (desired group b "y")) := by
  match i with
  | 0 => cases h; exact .inl ⟨rfl,rfl⟩
  | 1 => cases h; exact .inr ⟨rfl,rfl⟩
  | i+2 => simp [steps] at h

theorem observed (s : State) : KernelObserved id true (fun _ => []) (fun _ => []) (input s) := by
  intro l
  have hnot : (input .empty).target (view "x") = .notMounted ∧
      (input .empty).target (view "y") = .notMounted := by
    decide +kernel
  by_cases hx : l = view "x"
  · subst hx
    exact .inr ⟨[],true,List.Sublist.refl _,List.Sublist.refl _,hnot.1⟩
  by_cases hy : l = view "y"
  · subst hy
    exact .inr ⟨[],true,List.Sublist.refl _,List.Sublist.refl _,hnot.2⟩
  · left
    refine ⟨"target was not observed",?_⟩
    have hkx : compare (view "x") l ≠ .eq := fun h => hx (Std.LawfulEqCmp.eq_of_compare h).symm
    have hky : compare (view "y") l ≠ .eq := fun h => hy (Std.LawfulEqCmp.eq_of_compare h).symm
    simp [PlanInput.target,input,observations,hkx,hky]

/-- A pass whose mounts are newer than those that were made before. -/
theorem passOk {s : State} {id' : ℕ} {fault : Op → Option String} {w : World Location}
    (hplan : (plan (input s)).steps = steps)
    (hfault : ∀ op ∈ [Op.readIdentity,.rollbackRoot,.rollback,.syncDir], fault op = none)
    (hmade : ∀ e m d, w.Made e m d → ∃ k < id', m.identity.mntIdUnique = some k) :
    PassOk id true (input s) (env id' fault) w where
  steps := by
    intro i step hs
    have hnone : ∀ op ∈ [Op.readIdentity,.rollbackRoot,.rollback,.syncDir],
        (env id' fault i).fault op = none := by
      intro op hop
      by_cases hi : i = 0
      · simp only [env,if_pos hi,hfault op hop]
      · simp only [env,if_neg hi]
    refine ⟨fun _ t => Shrinks.refl t,fun _ => ?_,hnone _ (by simp),hnone _ (by simp),
      hnone _ (by simp),hnone _ (by simp)⟩
    rw [hplan] at hs
    rcases steps_cases hs with ⟨rfl,ha⟩ | ⟨rfl,ha⟩ <;> rw [ha] <;> rfl
  fresh := by
    intro i d deps _ e m d' hm
    obtain ⟨k,hk,hid⟩ := hmade e m d' hm
    have hne : id'+i ≠ k := by omega
    simp [MountIdentity.matches,Mount.readIdentity,StepEnv.newMount,env,hid,hne]
  distinct := by
    intro i j d deps d' deps' hij _ _
    simp [MountIdentity.matches,Mount.readIdentity,StepEnv.newMount,env,hij]

theorem run_first : Run id true first :=
  .pass start start.table (input .empty) _ (.start _) (Shrinks.refl _) rfl (observed _)
    (passOk (by decide +kernel) (by decide) fun _ _ _ hm => nomatch hm)

theorem run : Run id true final := by
  have hshrinks : Shrinks first.table fun _ => [] := fun _ => List.nil_sublist _
  refine .pass detached detached.table (input detached.state) _
    (.detach first _ run_first hshrinks) (Shrinks.refl _) rfl (observed _) ?_
  refine passOk (by decide +kernel) (fun _ _ => rfl) fun e m d hm => ?_
  have hmade : ∀ event ∈ first.trace, ∀ e m d, event = .attached e m d →
      m = ⟨identity 7 42,attrBits .default⟩ ∨ m = ⟨identity 8 43,attrBits .default⟩ := by
    intro event hevent e m d heq
    have hall : first.trace.all (fun
        | .attached _ m _ => m = ⟨identity 7 42,attrBits .default⟩ ∨
            m = ⟨identity 8 43,attrBits .default⟩
        | _ => true) = true := by
      decide +kernel
    have h := List.all_eq_true.mp hall event hevent
    subst heq
    simpa using h
  rcases hmade _ hm e m d rfl with rfl | rfl
  · exact ⟨7,by decide,rfl⟩
  · exact ⟨8,by decide,rfl⟩

def mount : Mount := ⟨identity 10 43,attrBits .default⟩

/-- The new mount of `b` is attached and recorded, and the first step of the first pass failed. -/
theorem attached_mount_recorded_run :
    (execute (env 7 unsaved) true (plan (input .empty)) start).1 ≠ [.done,.done] ∧
    mount ∈ final.table (view "y") ∧
    ∃ r, DescribedBy true final.state mount r ∧ DescribedBy true final.disk mount r ∧
      r.targetLocation = view "y" ∧ r.targetLocation = (desired group b "y").target ∧
      r.sourceLocation = (desired group b "y").source ∧
      r.identity.root = mount.identity.root ∧ r.attrs = (desired group b "y").attrs :=
  ⟨by decide +kernel,by decide +kernel,attached_mount_recorded run
    (show Event.attached (view "y") mount (desired group b "y") ∈ final.trace by decide +kernel)
    (by decide +kernel)⟩

end OwnershipRun
end Byssus
