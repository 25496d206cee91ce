import Byssus.Logging
import Byssus.RejectionLog
import Byssus.Report

/-! The text of the status report about members.
Each member has a line of its own.  Its target and its detail are quoted, its name is not, so
that a name with two spaces in it is taken for the end of the name. -/
namespace Byssus

open Logging (quote)

/-- `MemberState::as_str`. -/
def MemberState.asStr : MemberState → Text
  | .mounted => "mounted".toList
  | .wouldMount => "would_mount".toList
  | .wouldRemount => "would_remount".toList
  | .wouldUnmount => "would_unmount".toList
  | .staleRecord => "stale_record".toList
  | .conflict => "conflict".toList
  | .mountedOwnershipUnknown => "mounted_ownership_unknown".toList
  | .sourceUnavailable => "source_unavailable".toList
  | .targetUnavailable => "target_unavailable".toList
  | .collision => "collision".toList
  | .relocationBlocked => "relocation_blocked".toList
  | .groupUnavailable => "group_unavailable".toList
  | .rejected => "rejected".toList

def separator : Text := [' ',' ']

def stateField : Text := ['s','t','a','t','e','=']
def targetField : Text := ['t','a','r','g','e','t','=']
def detailField : Text := ['d','e','t','a','i','l','=']

/-- A field that is written where there is a value. -/
def renderField (field : Text) (value : Option Text) : Text :=
  (value.map fun v => separator++field++quote v).getD []

/-- A member's state, target and detail. -/
def MemberStatus.ownText (m : MemberStatus) : Text :=
  stateField++m.state.asStr++renderField targetField m.target++
    renderField detailField (m.detail.map String.toList)

/-- The group and the name. -/
def MemberStatus.label (m : MemberStatus) : Text := m.group++ '/'::m.name

/-- What the loop of `render_members` writes for a member, without the line break. -/
def MemberStatus.line (m : MemberStatus) : Text := m.label++separator++m.ownText

/-- `render_members`. -/
def renderMembers (members : List MemberStatus) (shows : MemberStatus → Bool) : Text :=
  let shown := members.filter shows
  if shown = [] then [] else '\n'::shown.flatMap fun m => m.line++['\n']

/-! ### Reading the text -/

/-- The lines after the blank one. -/
def memberLines (text : Text) : List Text := ((text.splitOn '\n').drop 1).dropLast

/-- What follows the first two spaces. -/
def afterSeparator : Text → Option Text
  | c::d::rest => if c = ' ' ∧ d = ' ' then some rest else afterSeparator (d::rest)
  | _ => none

/-- There is one line for each member, and what follows its first separator is that member's
own. -/
def TellsOwn (members : List MemberStatus) : Prop :=
  List.Forall₂ (fun m line => afterSeparator line = some m.ownText) members
    (memberLines (renderMembers members fun _ => true))

instance (members : List MemberStatus) : Decidable (TellsOwn members) :=
  inferInstanceAs (Decidable (List.Forall₂ _ _ _))

/-- Two spaces stand next to each other, also if one is the last character and a separator
follows. -/
abbrev Straddles (label : Text) : Prop := separator <:+: label++[' ']

theorem afterSeparator_of_not_straddles {label : Text} (own : Text) (h : ¬Straddles label) :
    afterSeparator (label++separator++own) = some own := by
  induction label with
  | nil => simp [separator,afterSeparator]
  | cons c label ih =>
    cases label with
    | nil =>
      have hc : c ≠ ' ' := by
        rintro rfl
        exact h List.infix_rfl
      simp [separator,afterSeparator,hc]
    | cons d label =>
      have hcd : ¬(c = ' ' ∧ d = ' ') := by
        rintro ⟨rfl,rfl⟩
        exact h (List.infix_cons_iff.mpr (.inl (by simp [separator])))
      have hrest : ¬Straddles (d::label) := fun hs => h (List.infix_cons_iff.mpr (.inr hs))
      simpa [afterSeparator,hcd] using ih hrest

/-- Otherwise more than the member's own text follows the first two spaces. -/
theorem afterSeparator_of_straddles {label : Text} (own : Text) (h : Straddles label) :
    ∃ more, more ≠ [] ∧ afterSeparator (label++separator++own) = some (more++own) := by
  induction label with
  | nil => simp [Straddles,separator,List.infix_cons_iff] at h
  | cons c label ih =>
    cases label with
    | nil =>
      by_cases hc : c = ' '
      · exact ⟨[' '],by simp,by simp [separator,afterSeparator,hc]⟩
      · simp [Straddles,separator,List.infix_cons_iff,Ne.symm hc] at h
    | cons d label =>
      by_cases hcd : c = ' ' ∧ d = ' '
      · exact ⟨label++separator,by simp [separator],by simp [afterSeparator,hcd]⟩
      · have hrest : Straddles (d::label) := by
          rcases List.infix_cons_iff.mp h with hp | hi
          · change [' ',' '] <+: c::d::(label++[' ']) at hp
            rw [List.cons_prefix_cons,List.cons_prefix_cons] at hp
            exact absurd ⟨hp.1.symm,hp.2.1.symm⟩ hcd
          · exact hi
        simpa [afterSeparator,hcd] using ih hrest

theorem afterSeparator_eq_iff (label own : Text) :
    afterSeparator (label++separator++own) = some own ↔ ¬Straddles label := by
  constructor
  · intro h hs
    obtain ⟨more,hne,heq⟩ := afterSeparator_of_straddles own hs
    rw [h,Option.some.injEq] at heq
    exact hne (List.self_eq_append_left.mp heq)
  · exact afterSeparator_of_not_straddles own

/-! ### Labels -/

/-- The label is `front`, in which there are neither spaces nor line breaks, and the displayed
bytes. -/
def MemberStatus.EndsIn (m : MemberStatus) (bytes : List UInt8) : Prop :=
  ∃ front, (∀ c ∈ front, c ≠ ' ' ∧ c ≠ '\n') ∧ m.label = front++displayBytes bytes

theorem escapeByte_spaces (b : UInt8) : '\n' ∉ escapeByte b ∧ (b ≠ 32 → ' ' ∉ escapeByte b) := by
  have h : ∀ i : Fin 256, '\n' ∉ escapeByte (UInt8.ofNat i) ∧
      (UInt8.ofNat i ≠ 32 → ' ' ∉ escapeByte (UInt8.ofNat i)) := by
    decide +kernel
  have hb := h ⟨b.toNat,b.toNat_lt⟩
  simpa using hb

theorem infix_append_of_notMem {front back : Text} (h : ' ' ∉ front) :
    separator <:+: front++back ↔ separator <:+: back := by
  induction front with
  | nil => simp
  | cons c front ih =>
    rw [List.mem_cons,not_or] at h
    rw [List.cons_append,List.infix_cons_iff,ih h.2]
    simp [separator,h.1]

/-- Spaces are displayed as they are, and nothing else is displayed as a space. -/
theorem infix_displayBytes (bytes : List UInt8) :
    separator <:+: displayBytes bytes ↔ [32,32] <:+: bytes := by
  induction bytes with
  | nil => simp [displayBytes,separator]
  | cons b bytes ih =>
    have hcons : displayBytes (b::bytes) = escapeByte b++displayBytes bytes := rfl
    rw [hcons,List.infix_cons_iff]
    by_cases hb : b = 32
    · subst hb
      have hhead : [' '] <+: displayBytes bytes ↔ [32] <+: bytes := by
        cases bytes with
        | nil => simp [displayBytes]
        | cons d bytes =>
          have hcons : displayBytes (d::bytes) = escapeByte d++displayBytes bytes := rfl
          rw [hcons]
          by_cases hd : d = 32
          · subst hd
            simp [show escapeByte 32 = [' '] from by decide]
          · obtain ⟨c,rest,hc⟩ := List.exists_cons_of_ne_nil (escapeByte_ne_nil d)
            have hsp := (escapeByte_spaces d).2 hd
            rw [hc,List.mem_cons,not_or] at hsp
            simp [hc,hsp.1,Ne.symm hd]
      rw [show escapeByte 32 = [' '] from by decide,List.singleton_append,List.infix_cons_iff,ih,
        separator,List.cons_prefix_cons,List.cons_prefix_cons,hhead]
      simp
    · rw [infix_append_of_notMem ((escapeByte_spaces b).2 hb),ih]
      simp [Ne.symm hb]

namespace MemberStatus.EndsIn

variable {m : MemberStatus} {bytes : List UInt8}

theorem straddles_iff (h : m.EndsIn bytes) : Straddles m.label ↔ [32,32] <:+: bytes++[32] := by
  obtain ⟨front,hf,hl⟩ := h
  have hend : displayBytes bytes++[' '] = displayBytes (bytes++[32]) := by
    rw [displayBytes,displayBytes,List.flatMap_append]
    rfl
  rw [Straddles,hl,List.append_assoc,infix_append_of_notMem fun hs => (hf _ hs).1 rfl,hend,
    infix_displayBytes]

theorem newline_notMem (h : m.EndsIn bytes) : '\n' ∉ m.label := by
  obtain ⟨front,hf,hl⟩ := h
  rw [hl,List.mem_append,not_or]
  refine ⟨fun hn => (hf _ hn).2 rfl,fun hn => ?_⟩
  obtain ⟨b,-,hb⟩ := List.mem_flatMap.mp hn
  exact (escapeByte_spaces b).1 hb

/-- A label of names ends in no bytes. -/
theorem of_plain (h : ∀ c ∈ m.label, c ≠ ' ' ∧ c ≠ '\n') : m.EndsIn [] :=
  ⟨m.label,h,by simp [displayBytes]⟩

end MemberStatus.EndsIn

theorem Name.text_plain (n : Name) : ∀ c ∈ n.text, c ≠ ' ' ∧ c ≠ '\n' := by
  intro c hc
  have hspace : isAllowedChar ' ' = false := by decide
  have hbreak : isAllowedChar '\n' = false := by decide
  constructor
  · rintro rfl
    rw [n.allowed hc] at hspace
    cases hspace
  · rintro rfl
    rw [n.allowed hc] at hbreak
    cases hbreak

theorem names_plain (ns : List Name) :
    ∀ c ∈ List.intercalate ['/'] (ns.map Name.text), c ≠ ' ' ∧ c ≠ '\n' := by
  intro c hc
  rcases Lists.mem_intercalate hc with hc | ⟨t,ht,hc⟩
  · rw [show c = '/' from by simpa using hc]
    decide
  · obtain ⟨n,-,rfl⟩ := List.mem_map.mp ht
    exact n.text_plain c hc

theorem GroupId.display_plain (g : GroupId) : ∀ c ∈ g.display, c ≠ ' ' ∧ c ≠ '\n' := by
  intro c hc
  rcases List.mem_append.mp hc with hc | hc
  · cases hs : g.set with
    | none => simp [hs] at hc
    | some s =>
      simp only [hs,List.mem_append,List.mem_singleton] at hc
      rcases hc with hc | rfl
      · exact s.text_plain c hc
      · decide
  · exact names_plain g.path c hc

theorem setLabel_plain (s : Name) : ∀ c ∈ setLabel s.text, c ≠ ' ' ∧ c ≠ '\n' := by
  intro c hc
  rcases List.mem_append.mp hc with hc | hc
  · exact s.text_plain c hc
  · have hstar : ∀ c ∈ ['/','*'], c ≠ ' ' ∧ c ≠ '\n' := by decide
    exact hstar c hc

/-- An entry's displayed path is plain up to the file name. -/
theorem displayEntry_eq (above : List Name) (fileName : List UInt8) :
    ∃ front, (∀ c ∈ front, c ≠ ' ' ∧ c ≠ '\n') ∧
      displayEntry above fileName = front++displayBytes fileName := by
  induction above with
  | nil => exact ⟨[],by simp,by simp [displayEntry]⟩
  | cons n above ih =>
    obtain ⟨front,hf,heq⟩ := ih
    refine ⟨n.text++ '/'::front,?_,?_⟩
    · intro c hc
      rcases List.mem_append.mp hc with hc | hc
      · exact n.text_plain c hc
      · rcases List.mem_cons.mp hc with rfl | hc
        · decide
        · exact hf c hc
    · have hstep : displayEntry (n::above) fileName =
          n.text++ '/'::displayEntry above fileName := by
        cases above <;> simp [displayEntry,List.intercalate]
      rw [hstep,heq,List.append_assoc,List.cons_append]

/-- Whose label is that of a member. -/
theorem MemberStatus.For.endsIn {m : MemberStatus} {k : RecordKey} (h : m.For k) :
    m.EndsIn [] := by
  apply EndsIn.of_plain
  intro c hc
  rw [label,h.1,h.2] at hc
  rcases List.mem_append.mp hc with hc | hc
  · exact k.group.display_plain c hc
  · rcases List.mem_cons.mp hc with rfl | hc
    · decide
    · exact k.name.text_plain c hc

/-- A note's status has the label and the subject of the note. -/
theorem noteStatus_identity {n : Note} {m : MemberStatus} (h : noteStatus n = some m) :
    (noteIdentity n).1 = (m.group,m.name) := by
  cases n <;> simp only [noteStatus,Option.some.injEq,reduceCtorEq] at h <;> rw [← h] <;> rfl

/-- The label of a rejected entry's status ends in the file name. -/
theorem DirEntry.endsIn {m : MemberStatus} {e : DirEntry} (h : e.key = (m.group,m.name)) :
    m.EndsIn e.file.bytes := by
  obtain ⟨dir,file,hv⟩ := e
  cases dir with
  | ofGroup id =>
    obtain ⟨hg,hn⟩ := Prod.mk.inj h
    refine ⟨id.display++['/'],?_,by simp [MemberStatus.label,← hg,← hn,FileName.display]⟩
    intro c hc
    rcases List.mem_append.mp hc with hc | hc
    · exact id.display_plain c hc
    · rw [List.mem_singleton.mp hc]
      decide
  | ofSet s above =>
    obtain ⟨hg,hn⟩ := Prod.mk.inj h
    obtain ⟨front,hf,heq⟩ := displayEntry_eq above file.bytes
    refine ⟨setLabel s.text++ '/'::front,?_,by simp [MemberStatus.label,← hg,← hn,heq]⟩
    intro c hc
    rcases List.mem_append.mp hc with hc | hc
    · exact setLabel_plain s c hc
    · rcases List.mem_cons.mp hc with rfl | hc
      · decide
      · exact hf c hc

/-- Every entry of the map is labelled as its member. -/
theorem statusMap_for {observed : Observed} {plan : Plan} {state : State} {known : Bool}
    {k : RecordKey} {m : MemberStatus}
    (h : (statusMap observed plan state known)[k]? = some m) : m.For k := by
  have hmarks := statusMap_overwrites observed plan state known
  by_cases hk : k ∈ (state.records.flatMap fun r =>
      if r.group ∈ observed.frozen then [r.key] else []) ++
        (plan.steps.flatMap fun s => [s.action.key]) ++ plan.findings.flatMap Finding.keys
  · obtain ⟨s,hs,hfor,-⟩ := hmarks.marked k hk
    rw [h,Option.some.injEq] at hs
    rwa [hs]
  · rw [hmarks.kept k hk] at h
    by_cases hd : k ∈ observed.desired.map DesiredMount.key
    · obtain ⟨s,hs,hfor,-⟩ := (desiredStatuses_get observed.desired k).1 hd
      rw [h,Option.some.injEq] at hs
      rwa [hs]
    · rw [(desiredStatuses_get observed.desired k).2 hd] at h
      cases h

section

variable {H : Type} {p : NotePass H} {plan : Plan} {state : State} {known : Bool}

/-- A member's label ends in the name of a rejected file, or there is none in it. -/
theorem memberStatuses_endsIn {m : MemberStatus}
    (h : m ∈ memberStatuses p.observed plan state known) :
    m.EndsIn [] ∨ ∃ e reason, p.Rejects e reason ∧ m.EndsIn e.file.bytes := by
  rcases mem_memberStatuses.mp h with ⟨k,hk⟩ | ⟨n,hn,hm⟩
  · exact .inl (statusMap_for hk).endsIn
  · have hkey := noteStatus_identity hm
    have hplain : ∀ {label subject : Text}, (∀ c ∈ label, c ≠ ' ' ∧ c ≠ '\n') →
        (∀ c ∈ subject, c ≠ ' ' ∧ c ≠ '\n') → (noteIdentity n).1 = (label,subject) →
          m.EndsIn [] := by
      intro label subject hl hs heq
      obtain ⟨rfl,rfl⟩ := Prod.mk.inj (hkey.symm.trans heq)
      apply MemberStatus.EndsIn.of_plain
      intro c hc
      rcases List.mem_append.mp hc with hc | hc
      · exact hl c hc
      · rcases List.mem_cons.mp hc with rfl | hc
        · decide
        · exact hs c hc
    rcases NotePass.about hn with ⟨e,reason,-,rfl⟩ | ⟨id,name,field,error,-,-,-,-,rfl⟩ |
      ⟨id,-,-,heq⟩ | ⟨s,-,heq⟩
    · rw [e.noteIdentity_note] at hkey
      exact .inr ⟨e,reason,hn,e.endsIn hkey⟩
    · exact .inl (hplain id.display_plain name.text_plain rfl)
    · exact .inl (hplain id.display_plain (by simp) heq)
    · exact .inl (hplain (setLabel_plain s) (by simp) heq)

/-- A rejected entry has a status. -/
theorem exists_status_of_rejects (plan : Plan) (state : State) (known : Bool) {e : DirEntry}
    {reason : RejectReason} (h : p.Rejects e reason) :
    ∃ m ∈ memberStatuses p.observed plan state known, m.EndsIn e.file.bytes := by
  obtain ⟨m,hm⟩ : ∃ m, noteStatus (e.note reason) = some m := by
    obtain ⟨dir,file,hv⟩ := e
    cases dir <;> exact ⟨_,rfl⟩
  refine ⟨m,mem_memberStatuses.mpr (.inr ⟨_,h,hm⟩),e.endsIn ?_⟩
  rw [← noteStatus_identity hm,e.noteIdentity_note]

end

/-! ### Lines -/

theorem MemberState.asStr_newline (s : MemberState) : '\n' ∉ s.asStr := by
  cases s <;> decide +kernel

theorem renderField_newline {field : Text} (hf : '\n' ∉ field) (value : Option Text) :
    '\n' ∉ renderField field value := by
  cases value with
  | none => simp [renderField]
  | some v =>
    have hq : '\n' ∉ quote v := fun h => absurd (Logging.quote_noControl h) (by decide)
    simp [renderField,separator,hf,hq]

theorem MemberStatus.ownText_newline (m : MemberStatus) : '\n' ∉ m.ownText := by
  have ht := renderField_newline (by decide : '\n' ∉ targetField) m.target
  have hd := renderField_newline (by decide : '\n' ∉ detailField) (m.detail.map String.toList)
  have hs : '\n' ∉ stateField := by decide
  simp [ownText,hs,m.state.asStr_newline,ht,hd]

/-- Every member has one line. -/
theorem memberLines_renderMembers {members : List MemberStatus}
    (h : ∀ m ∈ members, '\n' ∉ m.label) :
    memberLines (renderMembers members fun _ => true) = members.map MemberStatus.line := by
  have hline : ∀ m ∈ members, '\n' ∉ m.line := by
    intro m hm
    simp [MemberStatus.line,separator,h m hm,m.ownText_newline]
  by_cases hnil : members = []
  · simp [hnil,renderMembers,memberLines]
  · have hterm : (members.flatMap fun m => m.line++['\n']) =
        (members.map MemberStatus.line).flatMap fun l => l++['\n'] := by
      rw [List.flatMap_map]
    have hlines : ∀ l ∈ members.map MemberStatus.line, '\n' ∉ l := by
      intro l hl
      obtain ⟨m,hm,rfl⟩ := List.mem_map.mp hl
      exact hline m hm
    simp [memberLines,renderMembers,hnil,hterm,Lists.splitOn_terminated hlines,
      List.splitOn_cons_eq_if_modifyHead]

/-- Every line tells its member's own state, target and detail iff no rejected file has a name
with two spaces in a row or one at the end. -/
theorem status_lines_tell_own {H : Type} (p : NotePass H) (plan : Plan) (state : State)
    (known : Bool) :
    TellsOwn (memberStatuses p.observed plan state known) ↔
      ∀ e reason, p.Rejects e reason → ¬[32,32] <:+: e.file.bytes++[32] := by
  have hlabel : ∀ m ∈ memberStatuses p.observed plan state known, '\n' ∉ m.label := by
    intro m hm
    rcases memberStatuses_endsIn hm with h | ⟨e,reason,-,h⟩
    · exact h.newline_notMem
    · exact h.newline_notMem
  have hline : TellsOwn (memberStatuses p.observed plan state known) ↔
      ∀ m ∈ memberStatuses p.observed plan state known, ¬Straddles m.label := by
    rw [TellsOwn,memberLines_renderMembers hlabel,List.forall₂_map_right_iff,List.forall₂_same]
    exact forall₂_congr fun m _ => afterSeparator_eq_iff m.label m.ownText
  rw [hline]
  constructor
  · intro h e reason hr
    obtain ⟨m,hm,he⟩ := exists_status_of_rejects plan state known hr
    rw [← he.straddles_iff]
    exact h m hm
  · intro h m hm
    rcases memberStatuses_endsIn hm with he | ⟨e,reason,hr,he⟩
    · rw [he.straddles_iff]
      decide
    · rw [he.straddles_iff]
      exact h e reason hr

/-! The root of a set holds a file whose name reads like a state. -/
namespace SampleForgery

def fileName : List UInt8 := "x  state=mounted".toList.map fun c => UInt8.ofNat c.toNat

theorem groups_valid (id : GroupId) (g : GroupRuntime ℕ)
    (h : (UntypedEntry.runtimeOf UntypedEntry.set).groups[id]? = some g) : id.set = none → id.Valid := by
  simp [UntypedEntry.runtimeOf] at h

def pass : NotePass ℕ where
  env := SampleRejections.env [fileName] true
  runtime := UntypedEntry.runtimeOf UntypedEntry.set
  state := .empty
  degraded := ⟨∅,∅⟩
  names := by
    intro dir listed failed h f hf
    simp only [SampleRejections.env] at h
    split_ifs at h <;> cases h
    · rw [List.mem_singleton.mp hf]
      decide
    · rw [List.mem_singleton.mp hf]
      decide
  groups := groups_valid

def statuses : List MemberStatus :=
  memberStatuses pass.observed (plan (pass.observed.planInput .empty)) .empty true

/-- The entry is rejected, and its line says that it is mounted. -/
theorem not_tellsOwn : ¬∀ (p : NotePass ℕ) (plan : Plan) (state : State) (known : Bool),
    TellsOwn (memberStatuses p.observed plan state known) := by
  intro h
  have hno : ¬TellsOwn statuses := by decide +kernel
  exact hno (h pass _ .empty true)

end SampleForgery
end Byssus
