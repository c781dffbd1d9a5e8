import ImapProbe.Profile.Roster
import Mathlib.Data.List.Nodup

/-!
# Which tables are rosters

A table is refused for the first of its profiles that breaks a rule about identifiers
(`fault?_eq_some_iff`), and it is a roster when none does, which is when its identifiers are in use,
are not reserved and differ (`keeps_iff`). Then each identifier chooses its own profile, and what is
no identifier chooses none (`choose_eq`, `ofProfiles_chooses`).
-/

namespace ImapProbe.Roster

variable {table : List Profile} {roster : Roster} {target : String}

/-- The rules about the identifier of a profile that stands behind others, the first of which that
is broken counts. -/
inductive Breaks (before : List Profile) (p : Profile) : RosterFault → Prop
  | nameless : p.id = "" → Breaks before p .nameless
  | reserved : p.id ≠ "" → p.id = everyProfile → Breaks before p .reservedName
  | twice : p.id ≠ "" → p.id ≠ everyProfile → (∃ q ∈ before, q.id = p.id) →
    Breaks before p (.twice p.id)

/-- No profile of a table that stands behind others breaks a rule. -/
def KeepsBehind (before table : List Profile) : Prop :=
  ∀ front p behind, table = front ++ p :: behind → ∀ f, ¬Breaks (before ++ front) p f

/-- No profile of a table breaks a rule. -/
def Keeps (table : List Profile) : Prop :=
  ∀ front p behind, table = front ++ p :: behind → ∀ f, ¬Breaks front p f

theorem keepsBehind_nothing : KeepsBehind [] table ↔ Keeps table := .rfl

section Rules

variable {before rest : List Profile} {p : Profile} {f f' : RosterFault}

theorem Breaks.unique (h : Breaks before p f) (h' : Breaks before p f') : f = f' := by
  cases h <;> cases h' <;> first | rfl | contradiction

theorem not_breaks_iff :
    (∀ f, ¬Breaks before p f)
      ↔ p.id ≠ "" ∧ p.id ≠ everyProfile ∧ ∀ q ∈ before, q.id ≠ p.id := by
  constructor
  · intro h
    have hname : p.id ≠ "" := fun hp => h _ (.nameless hp)
    have hall : p.id ≠ everyProfile := fun hp => h _ (.reserved hname hp)
    exact ⟨hname, hall, fun q hq hid => h _ (.twice hname hall ⟨q, hq, hid⟩)⟩
  · rintro ⟨hname, hall, hseen⟩ f hf
    cases hf with
    | nameless h => exact hname h
    | reserved _ h => exact hall h
    | twice _ _ h =>
      obtain ⟨q, hq, hid⟩ := h
      exact hseen q hq hid

theorem keepsBehind_nil : KeepsBehind before [] := by
  rintro front p behind h
  simp at h

theorem keepsBehind_cons :
    KeepsBehind before (p :: rest)
      ↔ (∀ f, ¬Breaks before p f) ∧ KeepsBehind (before ++ [p]) rest := by
  constructor
  · intro h
    refine ⟨by simpa using h [] p rest rfl, fun front q behind hrest => ?_⟩
    simpa using h (p :: front) q behind (by rw [hrest]; rfl)
  · rintro ⟨hp, hrest⟩ front q behind h
    rcases front with _ | ⟨first, front⟩
    · obtain ⟨rfl, -⟩ := List.cons.inj h
      simpa using hp
    · obtain ⟨rfl, htail⟩ := List.cons.inj h
      simpa using hrest front q behind htail

/-- The identifiers of such a table are in use, are not reserved and differ. -/
theorem keepsBehind_iff : ∀ {before table : List Profile},
    KeepsBehind before table ↔ (table.map (·.id)).Nodup
      ∧ ∀ p ∈ table, p.id ≠ "" ∧ p.id ≠ everyProfile ∧ ∀ q ∈ before, q.id ≠ p.id
  | _, [] => by simp [keepsBehind_nil]
  | before, p :: rest => by
    rw [keepsBehind_cons, keepsBehind_iff, not_breaks_iff, List.map_cons, List.nodup_cons,
      List.forall_mem_cons]
    simp only [List.mem_append, List.mem_singleton, List.mem_map, not_exists, not_and]
    constructor
    · rintro ⟨hp, hnodup, hrest⟩
      exact ⟨⟨fun q hq hid => (hrest q hq).2.2 p (.inr rfl) hid.symm, hnodup⟩, hp, fun q hq =>
        ⟨(hrest q hq).1, (hrest q hq).2.1, fun q' hq' => (hrest q hq).2.2 q' (.inl hq')⟩⟩
    · rintro ⟨⟨hfresh, hnodup⟩, hp, hrest⟩
      refine ⟨hp, hnodup, fun q hq => ⟨(hrest q hq).1, (hrest q hq).2.1, ?_⟩⟩
      rintro q' (hq' | rfl)
      · exact (hrest q hq).2.2 q' hq'
      · exact fun hid => hfresh q hq hid.symm

theorem keeps_iff :
    Keeps table ↔ (table.map (·.id)).Nodup ∧ ∀ p ∈ table, p.id ≠ "" ∧ p.id ≠ everyProfile := by
  rw [← keepsBehind_nothing, keepsBehind_iff]
  simp

end Rules

section Faults

variable {before : List Profile} {seen : List String} {f : RosterFault}

/-- A profile is looked at once: it breaks a rule, or the profiles behind it count. -/
theorem fault?_cons (hseen : ∀ id, id ∈ seen ↔ ∃ q ∈ before, q.id = id) (p : Profile)
    (rest : List Profile) :
    (∃ f, Breaks before p f ∧ fault? seen (p :: rest) = some f)
      ∨ (∀ f, ¬Breaks before p f) ∧ fault? seen (p :: rest) = fault? (p.id :: seen) rest := by
  rw [fault?]
  split <;> rename_i hname
  · exact .inl ⟨_, .nameless hname, rfl⟩
  split <;> rename_i hall
  · exact .inl ⟨_, .reserved hname hall, rfl⟩
  split <;> rename_i hid
  · exact .inl ⟨_, .twice hname hall ((hseen _).1 hid), rfl⟩
  · refine .inr ⟨not_breaks_iff.2 ⟨hname, hall, fun q hq heq => ?_⟩, rfl⟩
    exact hid ((hseen _).2 ⟨q, hq, heq⟩)

theorem seen_cons (hseen : ∀ id, id ∈ seen ↔ ∃ q ∈ before, q.id = id) (p : Profile) (id : String) :
    id ∈ p.id :: seen ↔ ∃ q ∈ before ++ [p], q.id = id := by
  rw [List.mem_cons, hseen]
  constructor
  · rintro (rfl | ⟨q, hq, rfl⟩)
    · exact ⟨p, by simp, rfl⟩
    · exact ⟨q, by simp [hq], rfl⟩
  · rintro ⟨q, hq, rfl⟩
    rcases List.mem_append.1 hq with hq | hq
    · exact .inr ⟨q, hq, rfl⟩
    · exact .inl (by rw [List.mem_singleton.1 hq])

theorem fault?_eq_none_iff : ∀ {before table : List Profile} {seen : List String},
    (∀ id, id ∈ seen ↔ ∃ q ∈ before, q.id = id) →
      (fault? seen table = none ↔ KeepsBehind before table)
  | _, [], _, _ => by simp [fault?, keepsBehind_nil]
  | before, p :: rest, seen, hseen => by
    rw [keepsBehind_cons]
    rcases fault?_cons hseen p rest with ⟨f, hf, heq⟩ | ⟨hkeeps, heq⟩
    · rw [heq]
      exact iff_of_false (by simp) fun h => h.1 f hf
    · rw [heq, fault?_eq_none_iff (seen_cons hseen p), and_iff_right hkeeps]

/-- The fault of a table is that of the first profile that breaks a rule. -/
theorem fault?_eq_some_iff : ∀ {before table : List Profile} {seen : List String},
    (∀ id, id ∈ seen ↔ ∃ q ∈ before, q.id = id) →
      (fault? seen table = some f ↔ ∃ front p behind, table = front ++ p :: behind
        ∧ KeepsBehind before front ∧ Breaks (before ++ front) p f)
  | _, [], _, _ => by simp [fault?]
  | before, p :: rest, seen, hseen => by
    rcases fault?_cons hseen p rest with ⟨f', hf, heq⟩ | ⟨hkeeps, heq⟩ <;> rw [heq]
    · constructor
      · rintro ⟨⟩
        exact ⟨[], p, rest, rfl, keepsBehind_nil, by simpa using hf⟩
      · rintro ⟨_ | ⟨first, front⟩, q, behind, htable, hfront, hq⟩ <;>
          obtain ⟨rfl, -⟩ := List.cons.inj htable
        · rw [List.append_nil] at hq
          rw [hf.unique hq]
        · exact absurd hf ((keepsBehind_cons.1 hfront).1 f')
    · rw [fault?_eq_some_iff (seen_cons hseen p)]
      constructor
      · rintro ⟨front, q, behind, rfl, hfront, hq⟩
        exact ⟨p :: front, q, behind, rfl, keepsBehind_cons.2 ⟨hkeeps, hfront⟩, by simpa using hq⟩
      · rintro ⟨_ | ⟨first, front⟩, q, behind, htable, hfront, hq⟩ <;>
          obtain ⟨rfl, htail⟩ := List.cons.inj htable
        · exact absurd (by simpa using hq) (hkeeps f)
        · exact ⟨front, q, behind, htail, (keepsBehind_cons.1 hfront).2, by simpa using hq⟩

theorem seen_nil (id : String) :
    id ∈ ([] : List String) ↔ ∃ q ∈ ([] : List Profile), q.id = id := by
  simp

theorem ofProfiles_eq_ok_iff :
    ofProfiles table = .ok roster ↔ roster.profiles = table ∧ table ≠ [] ∧ Keeps table := by
  rw [← keepsBehind_nothing, ← fault?_eq_none_iff seen_nil, ofProfiles]
  rcases table with _ | ⟨p, rest⟩
  · simp
  · rcases fault? [] (p :: rest) with _ | f
    · rcases roster with ⟨profiles⟩
      simp [eq_comm]
    · simp

theorem ofProfiles_eq_error_iff :
    ofProfiles table = .error f ↔ table = [] ∧ f = .noProfile
      ∨ ∃ front p behind, table = front ++ p :: behind ∧ Keeps front ∧ Breaks front p f := by
  have hfault := @fault?_eq_some_iff f [] table [] seen_nil
  simp only [List.nil_append, keepsBehind_nothing] at hfault
  rw [← hfault, ofProfiles]
  rcases table with _ | ⟨p, rest⟩
  · simp [fault?, eq_comm]
  · rcases fault? [] (p :: rest) with _ | f' <;> simp

end Faults

theorem ofProfiles_eq_ok (h : ofProfiles table = .ok roster) :
    roster.profiles = table ∧ table ≠ [] ∧ (table.map (·.id)).Nodup
      ∧ ∀ p ∈ table, p.id ≠ everyProfile := by
  obtain ⟨hprofiles, hne, hkeeps⟩ := ofProfiles_eq_ok_iff.1 h
  obtain ⟨hnodup, hids⟩ := keeps_iff.1 hkeeps
  exact ⟨hprofiles, hne, hnodup, fun p hp => (hids p hp).2⟩

/-- The profiles of a table that a target names. -/
def chosen (table : List Profile) (target : String) : List Profile :=
  table.filter fun p => target = everyProfile ∨ p.id = target

theorem chosen_everyProfile : chosen table everyProfile = table := by simp [chosen]

theorem chosen_of_notMem (htarget : target ≠ everyProfile) (h : ∀ p ∈ table, p.id ≠ target) :
    chosen table target = [] := by
  simpa [chosen, htarget] using h

/-- When no two profiles have one identifier, the first with it is all there are. -/
theorem filter_id_eq (h : (table.map (·.id)).Nodup) (target : String) :
    table.filter (fun p => p.id = target) = (table.find? (·.id == target)).toList := by
  induction table with
  | nil => rfl
  | cons p rest ih =>
    rw [List.map_cons, List.nodup_cons] at h
    by_cases hp : p.id = target
    · subst hp
      have hrest : ∀ q ∈ rest, ¬decide (q.id = p.id) := fun q hq hid =>
        h.1 (List.mem_map.2 ⟨q, hq, by simpa using hid⟩)
      simp [List.filter_eq_nil_iff.2 hrest]
    · simp [hp, ih h.2]

/-- No profile stands before another of its identifier. -/
theorem find?_id (h : (table.map (·.id)).Nodup) {p : Profile} (hp : p ∈ table) :
    table.find? (·.id == p.id) = some p := by
  have hsome : (table.find? (·.id == p.id)).isSome := List.find?_isSome.2 ⟨p, hp, by simp⟩
  obtain ⟨q, hq⟩ := Option.isSome_iff_exists.1 hsome
  have hid : q.id = p.id := by simpa using List.find?_some hq
  rw [hq, List.inj_on_of_nodup_map h (List.mem_of_find?_eq_some hq) hp hid]

theorem chosen_id (h : (table.map (·.id)).Nodup) {p : Profile} (hp : p ∈ table)
    (hall : p.id ≠ everyProfile) : chosen table p.id = [p] := by
  have hfilter := filter_id_eq h p.id
  rw [find?_id h hp] at hfilter
  simpa [chosen, hall] using hfilter

theorem choose_eq (h : ofProfiles table = .ok roster) :
    roster.choose target
      = if chosen table target = [] then .error (.unknown target (table.map (·.id)))
        else .ok (chosen table target) := by
  obtain ⟨rfl, hne, hnodup, -⟩ := ofProfiles_eq_ok h
  by_cases ht : target = everyProfile
  · rw [ht, chosen_everyProfile, choose, if_pos rfl, if_neg hne]
  · have hc : chosen roster.profiles target = (roster.get? target).toList := by
      rw [get?, ← filter_id_eq hnodup]
      simp [chosen, ht]
    rw [hc, choose, if_neg ht]
    rcases roster.get? target <;> rfl

/-- Which tables are rosters, and what a roster gives. A table is one exactly when it has profiles
and their identifiers are in use, are not reserved and differ. Any other table that has profiles has
the fault of the first that breaks a rule. Of a roster each identifier chooses its profile and no
other, the reserved word all in the order of the table, and any other target none, with all
identifiers named in order. -/
theorem ofProfiles_chooses (table : List Profile) :
    ((∃ roster, ofProfiles table = .ok roster) ↔ table ≠ [] ∧ (table.map (·.id)).Nodup
        ∧ ∀ p ∈ table, p.id ≠ "" ∧ p.id ≠ everyProfile)
      ∧ (∀ f, ofProfiles table = .error f ↔ table = [] ∧ f = .noProfile
        ∨ ∃ front p behind, table = front ++ p :: behind ∧ Keeps front ∧ Breaks front p f)
      ∧ ∀ roster, ofProfiles table = .ok roster →
        (∀ p ∈ table, roster.choose p.id = .ok [p])
        ∧ roster.choose everyProfile = .ok table
        ∧ ∀ target, target ≠ everyProfile → (∀ p ∈ table, p.id ≠ target) →
          ∃ f, roster.choose target = .error f ∧ f = .unknown target (table.map (·.id))
            ∧ f.message = "unknown server profile `" ++ target ++ "`, expected `" ++ everyProfile
              ++ "` or one of: " ++ ", ".intercalate (table.map (·.id)) := by
  refine ⟨?_, fun f => ofProfiles_eq_error_iff, fun roster hroster => ?_⟩
  · rw [← keeps_iff]
    constructor
    · rintro ⟨roster, hroster⟩
      exact (ofProfiles_eq_ok_iff.1 hroster).2
    · exact fun h => ⟨⟨table⟩, ofProfiles_eq_ok_iff.2 ⟨rfl, h⟩⟩
  · obtain ⟨-, hne, hnodup, hids⟩ := ofProfiles_eq_ok hroster
    refine ⟨fun p hp => ?_, ?_, fun target htarget hother => ?_⟩
    · rw [choose_eq hroster, chosen_id hnodup hp (hids p hp), if_neg (List.cons_ne_nil _ _)]
    · rw [choose_eq hroster, chosen_everyProfile, if_neg hne]
    · refine ⟨_, ?_, rfl, rfl⟩
      rw [choose_eq hroster, chosen_of_notMem htarget hother, if_pos rfl]

/-- The second profile has the identifier of the first, which counts before the third has none. -/
example :
    let server id : Profile := ⟨id, .plain, "localhost", 143, "u", "p", "INBOX", ".x"⟩
    ofProfiles [server "a", server "a", server ""] = .error (.twice "a") := by decide

end ImapProbe.Roster
